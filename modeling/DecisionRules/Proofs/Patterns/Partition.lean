import Mathlib.Data.List.Forall2
import DecisionRules.ConstraintGroup
import DecisionRules.Proofs.Appearance

/-! The patterns of a group. All connectives but the exclusive choice divide the predicates of
a group by their fields: the fields stand in the order in which they first appear, the
predicates of each in the order in which they were given. -/
namespace DecisionRules

private def byField (fields : List String) (ps : List Predicate) : List Predicate :=
  fields.flatMap fun field => ps.filter (·.field = field)

section ByField

variable {fields : List String} {ps : List Predicate}

private theorem field_eq_of_mem_filter {field : String} {p : Predicate}
    (h : p ∈ ps.filter (·.field = field)) : p.field = field :=
  of_decide_eq_true (List.mem_filter.mp h).2

private theorem byField_cons (field : String) : byField (field :: fields) ps =
    ps.filter (·.field = field) ++ byField fields ps := List.flatMap_cons

private theorem field_mem_of_mem_byField {p : Predicate} (h : p ∈ byField fields ps) :
    p.field ∈ fields := by
  obtain ⟨field, hfield, hp⟩ := List.mem_flatMap.mp h
  exact (field_eq_of_mem_filter hp).symm ▸ hfield

/-- Sorting by fields loses and doubles nothing. -/
private theorem byField_perm (hnodup : fields.Nodup) (hall : ∀ p ∈ ps, p.field ∈ fields) :
    (byField fields ps).Perm ps := by
  induction fields generalizing ps with
  | nil =>
    have hnil : ps = [] := List.eq_nil_iff_forall_not_mem.mpr fun p hp => by simpa using hall p hp
    subst hnil
    exact .nil
  | cons field fields ih =>
    obtain ⟨hnew, hrest⟩ := List.nodup_cons.mp hnodup
    -- the other fields do not miss the predicates that the first one takes
    have hothers : byField fields ps = byField fields (ps.filter fun p => !decide (p.field = field)) := by
      apply List.flatMap_congr
      intro other hother
      rw [List.filter_filter]
      apply List.filter_congr
      intro p _
      have hne : other ≠ field := fun heq => hnew (heq ▸ hother)
      by_cases hp : p.field = other <;> simp [hp, hne]
    have hrestAll : ∀ p ∈ ps.filter fun p => !decide (p.field = field), p.field ∈ fields := by
      intro p hp
      obtain ⟨hp, hne⟩ := List.mem_filter.mp hp
      exact (List.mem_cons.mp (hall p hp)).resolve_left (by simpa using hne)
    rw [byField_cons, hothers]
    exact ((ih hrest hrestAll).append_left _).trans (List.filter_append_perm _ ps)

/-- What is sorted by fields has the same predicates for each of them, in the same order. -/
private theorem filter_byField (hnodup : fields.Nodup) {field : String} (hfield : field ∈ fields) :
    (byField fields ps).filter (·.field = field) = ps.filter (·.field = field) := by
  induction fields with
  | nil => cases hfield
  | cons first fields ih =>
    obtain ⟨hnew, hrest⟩ := List.nodup_cons.mp hnodup
    rw [byField_cons, List.filter_append, List.filter_filter]
    by_cases heq : first = field
    · subst heq
      have hnone : (byField fields ps).filter (·.field = first) = [] := by
        apply List.filter_eq_nil_iff.mpr
        intro p hp hfirst
        exact hnew (of_decide_eq_true hfirst ▸ field_mem_of_mem_byField hp)
      simp [hnone]
    · have hnone : (ps.filter fun p => decide (p.field = field) && decide (p.field = first)) = [] := by
        apply List.filter_eq_nil_iff.mpr
        intro p _ hboth
        obtain ⟨hp, hfirst⟩ := (Bool.and_eq_true _ _).mp hboth
        exact heq ((of_decide_eq_true hfirst).symm.trans (of_decide_eq_true hp))
      rw [hnone, List.nil_append]
      exact ih hrest ((List.mem_cons.mp hfield).resolve_left (Ne.symm heq))

/-- What is sorted by fields has the fields in this order. -/
private theorem eraseDups_map_field_byField (hnodup : fields.Nodup)
    (hall : ∀ field ∈ fields, field ∈ ps.map (·.field)) :
    ((byField fields ps).map (·.field)).eraseDups = fields := by
  induction fields with
  | nil => rfl
  | cons field fields ih =>
    obtain ⟨hnew, hrest⟩ := List.nodup_cons.mp hnodup
    have hfirst : ((ps.filter (·.field = field)).map (·.field)).eraseDups = [field] := by
      obtain ⟨p, hp, hfield⟩ := List.mem_map.mp (hall field List.mem_cons_self)
      have hkept : p ∈ ps.filter (·.field = field) := List.mem_filter.mpr ⟨hp, decide_eq_true hfield⟩
      apply eraseDups_eq_singleton (List.mem_map.mpr ⟨p, hkept, hfield⟩)
      exact List.forall_mem_map.mpr fun q hq => field_eq_of_mem_filter hq
    have hapart : ∀ other ∈ (byField fields ps).map (·.field),
        other ∉ (ps.filter (·.field = field)).map (·.field) := by
      intro other hother hsame
      obtain ⟨p, hp, rfl⟩ := List.mem_map.mp hother
      have heq : p.field = field := by
        obtain ⟨q, hq, hqp⟩ := List.mem_map.mp hsame
        exact hqp ▸ field_eq_of_mem_filter hq
      exact hnew (heq ▸ field_mem_of_mem_byField hp)
    rw [byField_cons, List.map_append, eraseDups_append_of_disjoint hapart, hfirst,
      ih hrest fun other hother => hall other (List.mem_cons_of_mem field hother),
      List.singleton_append]

end ByField

namespace ConstraintGroup

structure DividedInto (g : ConstraintGroup) (patterns : List Pattern) : Prop where
  fields_eq : patterns.map (·.field) = g.fields
  firstAppearances : FirstAppearances (patterns.map (·.field)) (g.predicates.map (·.field))
  predicates_eq : ∀ t ∈ patterns, t.predicates = g.predicates.filter (·.field = t.field)
  forField_eq : ∀ t ∈ patterns, g.forField t.field = t.predicates
  perm : (patterns.flatMap (·.predicates)).Perm g.predicates
  single_iff : ∀ t ∈ patterns, t.joiner = .single ↔ t.predicates.length = 1
  joiner_eq : ∀ t ∈ patterns, t.predicates.length ≠ 1 →
    t.joiner = if g.connective = .anyOf then .or else .and
  negated_iff : ∀ t ∈ patterns, t.negated = true ↔ g.connective = .noneOf

variable {g : ConstraintGroup}

theorem patterns_of_oneOf (h : g.connective = .oneOf) :
    g.patterns = g.predicates.map singlePattern := by rw [patterns, h]

theorem patterns_of_ne_oneOf (h : g.connective ≠ .oneOf) :
    g.patterns = g.fields.map g.fieldPattern := by
  rw [patterns]
  split
  · next hone => exact absurd hone h
  · rfl

theorem firstAppearances_fields (g : ConstraintGroup) :
    FirstAppearances g.fields (g.predicates.map (·.field)) := firstAppearances_eraseDups _

theorem field_mem_fields {p : Predicate} (h : p ∈ g.predicates) : p.field ∈ g.fields :=
  (g.firstAppearances_fields.mem_iff p.field).mpr (List.mem_map_of_mem h)

private theorem flatMap_fieldPattern (g : ConstraintGroup) :
    (g.fields.map g.fieldPattern).flatMap (·.predicates) = byField g.fields g.predicates :=
  List.flatMap_map ..

private theorem fieldPattern_joiner_eq_single_iff (g : ConstraintGroup) (field : String) :
    (g.fieldPattern field).joiner = .single ↔ (g.forField field).length = 1 := by
  unfold fieldPattern
  split_ifs <;> simp_all

private theorem dividedInto_fieldPatterns (g : ConstraintGroup) :
    g.DividedInto (g.fields.map g.fieldPattern) where
  fields_eq := by simp [fieldPattern, Function.comp_def]
  firstAppearances := by
    simpa [fieldPattern, Function.comp_def] using g.firstAppearances_fields
  predicates_eq := List.forall_mem_map.mpr fun _ _ => rfl
  forField_eq := List.forall_mem_map.mpr fun _ _ => rfl
  perm := by
    rw [flatMap_fieldPattern]
    exact byField_perm g.firstAppearances_fields.nodup fun p => field_mem_fields
  single_iff := List.forall_mem_map.mpr fun field _ => g.fieldPattern_joiner_eq_single_iff field
  joiner_eq := List.forall_mem_map.mpr fun _ _ hmany => if_neg hmany
  negated_iff := List.forall_mem_map.mpr fun _ _ => decide_eq_true_iff

/-- There is one way to divide a group. -/
private theorem DividedInto.eq_fieldPatterns {ts : List Pattern} (h : g.DividedInto ts) :
    ts = g.fields.map g.fieldPattern := by
  have heq : ∀ t ∈ ts, g.fieldPattern t.field = t := by
    rintro ⟨field, predicates, joiner, negated⟩ ht
    have hpredicates : g.forField field = predicates := h.forField_eq _ ht
    have hjoiner : joiner = if predicates.length = 1 then .single
        else if g.connective = .anyOf then .or else .and := by
      split
      · next hone => exact (h.single_iff _ ht).mpr hone
      · next hmany => exact h.joiner_eq _ ht hmany
    have hnegated : negated = decide (g.connective = .noneOf) :=
      Bool.eq_iff_iff.mpr ((h.negated_iff _ ht).trans decide_eq_true_iff.symm)
    rw [fieldPattern, hpredicates, hjoiner, hnegated]
  calc
    ts = ts.map id := (List.map_id ts).symm
    _ = ts.map fun t => g.fieldPattern t.field := List.map_congr_left fun t ht => (heq t ht).symm
    _ = g.fields.map g.fieldPattern := by rw [← h.fields_eq, List.map_map]; rfl

def regrouped (g : ConstraintGroup) : ConstraintGroup :=
  ⟨g.connective, g.patterns.flatMap (·.predicates)⟩

theorem patterns_regrouped (g : ConstraintGroup) : g.regrouped.patterns = g.patterns := by
  by_cases hone : g.connective = .oneOf
  · have hsame : g.regrouped.predicates = g.predicates := by
      rw [regrouped, patterns_of_oneOf hone, List.flatMap_map]
      exact List.flatMap_singleton' _
    rw [patterns_of_oneOf hone, patterns_of_oneOf (g := g.regrouped) hone, hsame]
  · have hpredicates : g.regrouped.predicates = byField g.fields g.predicates := by
      rw [regrouped, patterns_of_ne_oneOf hone, flatMap_fieldPattern]
    have hfields : g.regrouped.fields = g.fields := by
      rw [fields, hpredicates]
      exact eraseDups_map_field_byField g.firstAppearances_fields.nodup
        fun field => (g.firstAppearances_fields.mem_iff field).mp
    rw [patterns_of_ne_oneOf hone, patterns_of_ne_oneOf (g := g.regrouped) hone, hfields]
    apply List.map_congr_left
    intro field hfield
    have hforField : g.regrouped.forField field = g.forField field := by
      rw [forField, hpredicates]
      exact filter_byField g.firstAppearances_fields.nodup hfield
    simp only [fieldPattern, hforField]
    rfl

end ConstraintGroup

structure Pattern.TestsAlone (t : Pattern) (p : Predicate) : Prop where
  field_eq : t.field = p.field
  predicates_eq : t.predicates = [p]
  joiner_eq : t.joiner = .single
  negated_eq : t.negated = false

namespace ConstraintGroup

private theorem testsAlone_singlePattern (p : Predicate) : (singlePattern p).TestsAlone p :=
  ⟨rfl, rfl, rfl, rfl⟩

/-- The patterns of a group divide its predicates by their fields, an exclusive choice tests each
of its predicates alone, and the patterns of what they test are the same again. -/
theorem patterns_partition (g : ConstraintGroup) :
    (g.connective ≠ .oneOf → ∀ ts, g.DividedInto ts ↔ ts = g.patterns) ∧
      (g.connective = .oneOf → List.Forall₂ Pattern.TestsAlone g.patterns g.predicates) ∧
      g.regrouped.patterns = g.patterns := by
  refine ⟨?_, ?_, patterns_regrouped g⟩
  · intro hconnective ts
    rw [patterns_of_ne_oneOf hconnective]
    refine ⟨DividedInto.eq_fieldPatterns, ?_⟩
    rintro rfl
    exact dividedInto_fieldPatterns g
  · intro hconnective
    rw [patterns_of_oneOf hconnective, List.forall₂_map_left_iff]
    exact List.forall₂_same.mpr fun p _ => testsAlone_singlePattern p

private def readings : List Predicate :=
  [⟨"TEMP", .gt, .int 70⟩, ⟨"ZONE", .eq, .int 3⟩, ⟨"TEMP", .lt, .int 20⟩]

/-- Alternatives on two fields in turn are tested field by field. -/
theorem patterns_partition_readings :
    (⟨.anyOf, readings⟩ : ConstraintGroup).DividedInto
        [⟨"TEMP", [⟨"TEMP", .gt, .int 70⟩, ⟨"TEMP", .lt, .int 20⟩], .or, false⟩,
          ⟨"ZONE", [⟨"ZONE", .eq, .int 3⟩], .single, false⟩] ∧
      List.Forall₂ Pattern.TestsAlone (⟨.oneOf, readings⟩ : ConstraintGroup).patterns readings :=
  ⟨((patterns_partition _).1 (by decide) _).mpr (by decide), (patterns_partition _).2.1 rfl⟩

end ConstraintGroup
end DecisionRules
