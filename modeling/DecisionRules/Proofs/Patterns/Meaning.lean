import DecisionRules.Proofs.Patterns.Partition

/-! What the patterns of a group say. A pattern joins the predicates of a field, and a negated
one denies what they say together. Patterns of predicates to exclude are therefore true as soon
as one predicate of each field fails, and only where no field has two different predicates do
they say that none of them holds. -/
namespace DecisionRules

namespace Pattern

/-- What the predicates of a pattern say together, if each is true or false as given. -/
def joined (truth : Predicate → Bool) (t : Pattern) : Bool :=
  match t.joiner with
  | .or => t.predicates.any truth
  | .and | .single => t.predicates.all truth

def isTrue (truth : Predicate → Bool) (t : Pattern) : Bool :=
  if t.negated then !t.joined truth else t.joined truth

end Pattern

namespace ConstraintGroup

def PatternsHold (g : ConstraintGroup) (truth : Predicate → Bool) : Prop :=
  ∀ t ∈ g.patterns, t.isTrue truth = true

instance (g : ConstraintGroup) (truth : Predicate → Bool) : Decidable (g.PatternsHold truth) :=
  inferInstanceAs (Decidable (∀ t ∈ g.patterns, t.isTrue truth = true))

variable {g : ConstraintGroup} {truth : Predicate → Bool} {field : String}

theorem mem_forField_iff {p : Predicate} :
    p ∈ g.forField field ↔ p ∈ g.predicates ∧ p.field = field := by
  simp [forField]

/-- Alternatives are joined by disjunction and all others by conjunction. A single predicate
says the same by itself. -/
private theorem joined_fieldPattern (g : ConstraintGroup) (truth : Predicate → Bool)
    (field : String) :
    (g.fieldPattern field).joined truth =
      if g.connective = .anyOf then (g.forField field).any truth
      else (g.forField field).all truth := by
  by_cases hone : (g.forField field).length = 1
  · obtain ⟨p, hp⟩ := List.length_eq_one_iff.mp hone
    simp [fieldPattern, Pattern.joined, hp]
  · by_cases hany : g.connective = .anyOf <;> simp [fieldPattern, Pattern.joined, hone, hany]

/-- A pattern is true if some alternative is, if not all predicates to exclude are, or if all
others are. -/
theorem isTrue_fieldPattern (g : ConstraintGroup) (truth : Predicate → Bool) (field : String) :
    (g.fieldPattern field).isTrue truth =
      match g.connective with
      | .anyOf => (g.forField field).any truth
      | .noneOf => !(g.forField field).all truth
      | _ => (g.forField field).all truth := by
  rw [Pattern.isTrue, joined_fieldPattern]
  cases h : g.connective <;> simp [fieldPattern, h]

theorem patternsHold_iff_fields (h : g.connective ≠ .oneOf) :
    g.PatternsHold truth ↔ ∀ field ∈ g.fields, (g.fieldPattern field).isTrue truth = true := by
  rw [PatternsHold, patterns_of_ne_oneOf h, List.forall_mem_map]

/-- What holds of the predicates of each field holds of all predicates. -/
private theorem forall_fields_iff {holds : Predicate → Prop} :
    (∀ field ∈ g.fields, ∀ p ∈ g.forField field, holds p) ↔ ∀ p ∈ g.predicates, holds p := by
  constructor
  · intro h p hp
    exact h p.field (field_mem_fields hp) p (mem_forField_iff.mpr ⟨hp, rfl⟩)
  · intro h field _ p hp
    exact h p (mem_forField_iff.mp hp).1

theorem patternsHold_allOf_iff {ps : List Predicate} :
    (⟨.allOf, ps⟩ : ConstraintGroup).PatternsHold truth ↔ ∀ p ∈ ps, truth p = true := by
  rw [patternsHold_iff_fields (by simp)]
  simp only [isTrue_fieldPattern, List.all_eq_true]
  exact forall_fields_iff

theorem patternsHold_anyOf_iff {ps : List Predicate} :
    (⟨.anyOf, ps⟩ : ConstraintGroup).PatternsHold truth ↔
      ∀ field ∈ ps.map (·.field), ∃ p ∈ ps, p.field = field ∧ truth p = true := by
  rw [patternsHold_iff_fields (by simp)]
  simp only [isTrue_fieldPattern, List.any_eq_true, mem_forField_iff, and_assoc]
  exact forall_congr' fun field => imp_congr_left (firstAppearances_fields _ |>.mem_iff field)

theorem patternsHold_noneOf_iff {ps : List Predicate} :
    (⟨.noneOf, ps⟩ : ConstraintGroup).PatternsHold truth ↔
      ∀ field ∈ ps.map (·.field), ∃ p ∈ ps, p.field = field ∧ truth p = false := by
  rw [patternsHold_iff_fields (by simp)]
  simp only [isTrue_fieldPattern, Bool.not_eq_true', List.all_eq_false, Bool.not_eq_true,
    mem_forField_iff, and_assoc]
  exact forall_congr' fun field => imp_congr_left (firstAppearances_fields _ |>.mem_iff field)

def OnePerField (ps : List Predicate) : Prop := ∀ p ∈ ps, ∀ q ∈ ps, p.field = q.field → p = q

/-- Predicates of different fields are excluded one by one, and two predicates of one field are
not: one of them may hold if nothing else does. -/
private theorem onePerField_iff {ps : List Predicate} : OnePerField ps ↔
    ∀ truth, (⟨.noneOf, ps⟩ : ConstraintGroup).PatternsHold truth ↔ ∀ p ∈ ps, truth p = false := by
  simp only [patternsHold_noneOf_iff, List.forall_mem_map]
  constructor
  · intro hone truth
    constructor
    · intro h p hp
      obtain ⟨q, hq, hfield, hfalse⟩ := h p hp
      rwa [hone p hp q hq hfield.symm]
    · intro h p hp
      exact ⟨p, hp, rfl, h p hp⟩
  · intro h p hp q hq hfield
    by_contra hne
    -- where nothing but p is true, each field has a predicate that fails, that of p has q
    have honly := (h fun r => decide (r = p)).mp
    have hfails : ∀ r ∈ ps, ∃ s ∈ ps, s.field = r.field ∧ decide (s = p) = false := by
      intro r hr
      by_cases hrp : r = p
      · exact ⟨q, hq, by rw [hrp, hfield], decide_eq_false (Ne.symm hne)⟩
      · exact ⟨r, hr, rfl, decide_eq_false hrp⟩
    simpa using honly hfails p hp

/-- The patterns of a conjunction are all true if all of its predicates are, those of
alternatives if each field has one that is, and those of predicates to exclude if each field has
one that is not. The last says that none of them is true for the lists in which no field has two
different predicates, and for no others. -/
theorem patterns_hold_as_joined (ps : List Predicate) :
    (∀ truth, (⟨.allOf, ps⟩ : ConstraintGroup).PatternsHold truth ↔ ∀ p ∈ ps, truth p = true) ∧
      (∀ truth, (⟨.anyOf, ps⟩ : ConstraintGroup).PatternsHold truth ↔
        ∀ field ∈ ps.map (·.field), ∃ p ∈ ps, p.field = field ∧ truth p = true) ∧
      (∀ truth, (⟨.noneOf, ps⟩ : ConstraintGroup).PatternsHold truth ↔
        ∀ field ∈ ps.map (·.field), ∃ p ∈ ps, p.field = field ∧ truth p = false) ∧
      ((∀ truth, (⟨.noneOf, ps⟩ : ConstraintGroup).PatternsHold truth ↔
        ∀ p ∈ ps, truth p = false) ↔ OnePerField ps) :=
  ⟨fun _ => patternsHold_allOf_iff, fun _ => patternsHold_anyOf_iff,
    fun _ => patternsHold_noneOf_iff, onePerField_iff.symm⟩

private def mild : List Predicate := [⟨"TEMP", .lt, .int 90⟩, ⟨"TEMP", .gt, .int 50⟩]

private def calm : List Predicate := [⟨"TEMP", .gt, .int 50⟩, ⟨"WINDY", .eq, .bool false⟩]

/-- Predicates on two fields are excluded one by one; of a range the two bounds are excluded
together. -/
theorem patterns_hold_as_joined_calm :
    (∀ truth, (⟨.noneOf, calm⟩ : ConstraintGroup).PatternsHold truth ↔
        ∀ p ∈ calm, truth p = false) ∧
      ∀ truth, (⟨.noneOf, mild⟩ : ConstraintGroup).PatternsHold truth ↔
        ∀ field ∈ mild.map (·.field), ∃ p ∈ mild, p.field = field ∧ truth p = false := by
  have hcalm : OnePerField calm := by
    unfold OnePerField
    decide
  exact ⟨(patterns_hold_as_joined calm).2.2.2.mpr hcalm, (patterns_hold_as_joined mild).2.2.1⟩

/-- In the cold the upper bound of a range holds, and still the range is excluded. -/
theorem excluded_range_in_the_cold :
    checked .noneOf mild = .ok ⟨.noneOf, mild⟩ ∧
      ¬((⟨.noneOf, mild⟩ : ConstraintGroup).PatternsHold (fun p => p.comparison = .lt) ↔
        ∀ p ∈ mild, decide (p.comparison = .lt) = false) :=
  ⟨rfl, by decide⟩

end ConstraintGroup
end DecisionRules
