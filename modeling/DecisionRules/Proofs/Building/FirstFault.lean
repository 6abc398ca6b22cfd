import DecisionRules.Proofs.Building.Merging
import DecisionRules.Proofs.Building.Settings
import DecisionRules.Proofs.Building.WellFormed
import DecisionRules.Proofs.FirstFailure

/-! What building a rule complains about. A draft is either complete, and then a rule comes of
it, or there is a first fault in the order of its places, and then this fault is reported. -/
namespace DecisionRules

private theorem Value.isFinite_eq_false_iff {v : Value} :
    v.isFinite = false ↔ ∃ x, v = .float x ∧ x.isFinite = false := by
  cases v <;> simp [isFinite]

/-- Only an order on truth values is refused. -/
private theorem Comparison.accepts_eq_false_iff {c : Comparison} {v : Value} :
    c.accepts v = false ↔ ∃ b, v = .bool b ∧ c.isOrdering = true := by
  cases v <;> simp [accepts]

namespace Predicate

/-- What is wrong with a predicate that is named as an argument: its field comes before its
value, and its value before its comparison. -/
inductive Faulty (argument : String) (p : Predicate) : RuleError → Prop
  | blankField (hfield : Text.isBlankText p.field = true) :
      Faulty argument p (.invalidArgument argument "field name is empty")
  | nonFinite (hfield : Text.isBlankText p.field = false) (x : Binary64) (hvalue : p.value = .float x)
      (hx : x.isFinite = false) :
      Faulty argument p (.invalidArgument argument
        ("field '" ++ p.field ++ "' is compared with a non-finite float"))
  | ordering (hfield : Text.isBlankText p.field = false) (b : Bool) (hvalue : p.value = .bool b)
      (horder : p.comparison.isOrdering = true) :
      Faulty argument p (.invalidArgument argument
        ("operator '" ++ p.comparison.symbol ++ "' cannot compare field '" ++ p.field
          ++ "' with a " ++ p.value.kindName ++ " value"))

variable {argument : String} {p : Predicate}

theorem check_eq_error_iff {e : RuleError} : p.check argument = .error e ↔ p.Faulty argument e := by
  rw [check, fault?]
  constructor
  · intro h
    cases hfield : Text.isBlankText p.field with
    | true =>
      simp only [hfield, if_true] at h
      cases h
      exact .blankField hfield
    | false =>
      cases hfinite : p.value.isFinite with
      | false =>
        obtain ⟨x, hvalue, hx⟩ := Value.isFinite_eq_false_iff.mp hfinite
        simp only [hfield, hfinite] at h
        cases h
        exact .nonFinite hfield x hvalue hx
      | true =>
        cases haccepts : p.comparison.accepts p.value with
        | false =>
          obtain ⟨b, hvalue, horder⟩ := Comparison.accepts_eq_false_iff.mp haccepts
          simp only [hfield, hfinite, haccepts] at h
          cases h
          exact .ordering hfield b hvalue horder
        | true =>
          simp only [hfield, hfinite, haccepts] at h
          cases h
  · intro h
    cases h with
    | blankField hfield =>
      simp only [hfield, if_true]
      rfl
    | nonFinite hfield x hvalue hx =>
      have hfinite : p.value.isFinite = false := Value.isFinite_eq_false_iff.mpr ⟨x, hvalue, hx⟩
      simp only [hfield, hfinite]
      rfl
    | ordering hfield b hvalue horder =>
      have hfinite : p.value.isFinite = true := by rw [hvalue]; rfl
      have hrefused : p.comparison.accepts p.value = false :=
        Comparison.accepts_eq_false_iff.mpr ⟨b, hvalue, horder⟩
      simp only [hfield, hfinite, hrefused]
      rfl

private theorem forall_not_faulty_iff : (∀ e, ¬p.Faulty argument e) ↔ p.WellFormed := by
  simp only [← check_eq_error_iff, forall_ne_error_iff, wellFormed_iff]
  exact ⟨fun ⟨_, h⟩ => check_eq_ok_iff.mp h, fun h => ⟨(), check_eq_ok_iff.mpr h⟩⟩

end Predicate

namespace ConstraintGroup

inductive Faulty (c : Connective) : List Predicate → RuleError → Prop
  | nil : Faulty c [] (.conflictingConstraint c "no predicates supplied")
  | predicate {ps : List Predicate} {e : RuleError}
      (h : FirstFailure (Predicate.Faulty (c.label ++ " predicate")) ps e) : Faulty c ps e

variable {c : Connective} {ps : List Predicate} {e : RuleError}

theorem checked_eq_error_iff : checked c ps = .error e ↔ Faulty c ps e := by
  cases ps with
  | nil =>
    have hnone : checked c [] = .error (.conflictingConstraint c "no predicates supplied") := rfl
    rw [hnone]
    constructor
    · intro h
      cases h
      exact .nil
    · intro h
      cases h with
      | nil => rfl
      | predicate h => cases h
  | cons p ps =>
    have hall : Reports ((p :: ps).forM (Predicate.check (c.label ++ " predicate")))
        (Predicate.Faulty (c.label ++ " predicate")) (p :: ps) :=
      Reports.forM fun _ _ => Predicate.check_eq_error_iff
    have hchecked : Reports (checked c (p :: ps)) (Predicate.Faulty (c.label ++ " predicate"))
        (p :: ps) := by
      simpa [checked] using hall.bind fun _ => Reports.pure (⟨c, p :: ps⟩ : ConstraintGroup)
    rw [hchecked e]
    constructor
    · exact .predicate
    · intro h
      cases h with
      | predicate h => exact h

private theorem forall_not_faulty_iff :
    (∀ e, ¬Faulty c ps e) ↔ ps ≠ [] ∧ ∀ p ∈ ps, p.WellFormed := by
  have hsound : (⟨c, ps⟩ : ConstraintGroup).WellFormed ↔ ps ≠ [] ∧ ∀ p ∈ ps, p.WellFormed :=
    ⟨fun h => ⟨h.ne_nil, h.predicates⟩, fun h => ⟨h.1, h.2⟩⟩
  simp only [← checked_eq_error_iff, forall_ne_error_iff, checked_eq_ok_iff, ← hsound, wellFormed_iff]
  exact ⟨fun ⟨_, hg, h⟩ => hg ▸ h, fun h => ⟨_, rfl, h⟩⟩

end ConstraintGroup

namespace MembershipGroup

inductive FaultyEntry (k : MembershipKind) (e : MembershipEntry) : RuleError → Prop
  | blankField (hfield : Text.isBlankText e.field = true) :
      FaultyEntry k e (.invalidArgument (k.label ++ " constraint") "field name is empty")
  | noValues (hfield : Text.isBlankText e.field = false) (hvalues : e.values = []) :
      FaultyEntry k e (.conflictingConstraint k ("field '" ++ e.field ++ "' has no values"))

/-- What is wrong with the entries of a group, that there are none before what is wrong with
the first of them that is at fault. The entry of a field is the last one given for it, in the
place of the first. -/
inductive Faulty (k : MembershipKind) : List MembershipEntry → RuleError → Prop
  | nil : Faulty k [] (.conflictingConstraint k "no fields supplied")
  | entry {es : List MembershipEntry} {error : RuleError}
      (h : FirstFailure (FaultyEntry k) (lastEntries es) error) : Faulty k es error

variable {k : MembershipKind} {e : MembershipEntry} {es : List MembershipEntry} {error : RuleError}

theorem checkEntry_eq_error_iff : checkEntry k e = .error error ↔ FaultyEntry k e error := by
  rw [checkEntry]
  constructor
  · intro h
    cases hfield : Text.isBlankText e.field with
    | true =>
      simp only [hfield, if_true] at h
      cases h
      exact .blankField hfield
    | false =>
      cases hvalues : e.values with
      | nil =>
        simp only [hfield, hvalues] at h
        cases h
        exact .noValues hfield hvalues
      | cons =>
        simp only [hfield, hvalues] at h
        cases h
  · intro h
    cases h with
    | blankField hfield =>
      simp only [hfield, if_true]
    | noValues hfield hvalues =>
      simp only [hfield, hvalues]
      rfl

theorem checked_eq_error_iff : checked k es = .error error ↔ Faulty k es error := by
  cases es with
  | nil =>
    have hnone : checked k [] = .error (.conflictingConstraint k "no fields supplied") := rfl
    rw [hnone]
    constructor
    · intro h
      cases h
      exact .nil
    · intro h
      cases h with
      | nil => rfl
      | entry h => cases h
  | cons e es =>
    have hne : lastEntries (e :: es) ≠ [] := by simp [lastEntries_eq_nil_iff]
    have hall : Reports ((lastEntries (e :: es)).forM (checkEntry k)) (FaultyEntry k)
        (lastEntries (e :: es)) := Reports.forM fun _ _ => checkEntry_eq_error_iff
    have hchecked : Reports (checked k (e :: es)) (FaultyEntry k) (lastEntries (e :: es)) := by
      simpa [checked, check, ofEntries_eq_lastEntries, hne] using
        hall.bind fun _ => Reports.pure (⟨k, lastEntries (e :: es)⟩ : MembershipGroup)
    rw [hchecked error]
    constructor
    · exact .entry
    · intro h
      cases h with
      | entry h => exact h

private theorem forall_not_faulty_iff : (∀ error, ¬Faulty k es error) ↔
    es ≠ [] ∧ ∀ e ∈ lastEntries es, Text.isBlankText e.field = false ∧ e.values ≠ [] := by
  have hsound : (ofEntries k es).Sound ↔
      es ≠ [] ∧ ∀ e ∈ lastEntries es, Text.isBlankText e.field = false ∧ e.values ≠ [] := by
    rw [ofEntries_eq_lastEntries, ← lastEntries_eq_nil_iff.ne]
    constructor
    · intro h
      exact ⟨h.ne_nil, fun e he => ⟨(h.soundEntry e he).visible, (h.soundEntry e he).ne_nil⟩⟩
    · intro h
      obtain ⟨hne, hsound⟩ := h
      exact ⟨hne, fun e he => ⟨(hsound e he).1, (hsound e he).2⟩⟩
  simp only [← checked_eq_error_iff, forall_ne_error_iff, checked_eq_ok_iff, ← hsound]
  exact ⟨fun ⟨_, hg, h⟩ => hg ▸ h, fun h => ⟨_, rfl, h⟩⟩

end MembershipGroup

def Slot.checked : List Slot :=
  [.name, .statusToSet, .predicates .allOf, .predicates .anyOf, .predicates .oneOf,
    .predicates .noneOf, .membership .memberOf, .membership .notMemberOf, .breakOn]

namespace Draft

/-- What is wrong in a place of a draft. In the other places nothing can be wrong. -/
def FaultyAt (d : Draft) (s : Slot) (e : RuleError) : Prop :=
  match s with
  | .name => (∀ text ∈ d.name, Text.isBlankText text = true) ∧ e = .incompleteRule "name"
  | .statusToSet =>
    (∀ text ∈ d.statusToSet, Text.isBlankText text = true) ∧ e = .incompleteRule "status_to_set"
  | .predicates c => ∃ ps ∈ d.predicates.get c, ConstraintGroup.Faulty c ps e
  | .membership k => ∃ es ∈ d.memberships.get k, MembershipGroup.Faulty k es e
  | .breakOn => ∃ p ∈ d.breakPredicate, p.Faulty "break clause" e
  | _ => False

structure Complete (d : Draft) : Prop where
  name : ∃ text ∈ d.name, Text.isBlankText text = false
  statusToSet : ∃ text ∈ d.statusToSet, Text.isBlankText text = false
  predicates (c : Connective) : ∀ ps ∈ d.predicates.get c, ps ≠ [] ∧ ∀ p ∈ ps, p.WellFormed
  membership (k : MembershipKind) : ∀ es ∈ d.memberships.get k,
    es ≠ [] ∧ ∀ e ∈ MembershipGroup.lastEntries es, Text.isBlankText e.field = false ∧ e.values ≠ []
  breakOn : ∀ p ∈ d.breakPredicate, p.WellFormed

variable {α β : Type} {d : Draft} {e : RuleError}

theorem requireSet_eq_error_iff {what : String} {o : Option String} : requireSet what o = .error e ↔
    (∀ text ∈ o, Text.isBlankText text = true) ∧ e = .incompleteRule what := by
  rw [eq_comm (a := e)]
  cases o with
  | none => simp [requireSet]
  | some text => cases h : Text.isBlankText text <;> simp [requireSet, h]

private theorem forall_not_unset_iff {what : String} {o : Option String} :
    (∀ e, ¬((∀ text ∈ o, Text.isBlankText text = true) ∧ e = RuleError.incompleteRule what)) ↔
      ∃ text ∈ o, Text.isBlankText text = false := by
  cases o <;> simp

/-- A part that may be absent fails its check if it is there and fails. -/
theorem checkSome_eq_error_iff {f : α → Except RuleError β} {o : Option α} :
    checkSome f o = .error e ↔ ∃ a ∈ o, f a = .error e := by
  cases o with
  | none => simp [checkSome]
  | some a => cases h : f a <;> simp [checkSome, h, Functor.map, Except.map]

private theorem forall_not_exists_mem_iff {faulty : α → RuleError → Prop} {o : Option α} :
    (∀ e, ¬∃ a ∈ o, faulty a e) ↔ ∀ a ∈ o, ∀ e, ¬faulty a e := by
  cases o <;> simp

theorem checkedBreak_eq_error_iff {p : Predicate} :
    checkedBreak p = .error e ↔ p.Faulty "break clause" e := by
  rw [← Predicate.check_eq_error_iff, checkedBreak]
  cases p.check "break clause" <;> simp [bind, Except.bind, pure, Except.pure]

/-- Building checks the places one after another. -/
theorem build_reports (d : Draft) (kind : NodeKind) :
    Reports (d.build kind) d.FaultyAt Slot.checked := by
  have hname : Reports (requireSet "name" d.name) d.FaultyAt [.name] :=
    .single fun _ => requireSet_eq_error_iff
  have hstatus : Reports (requireSet "status_to_set" d.statusToSet) d.FaultyAt [.statusToSet] :=
    .single fun _ => requireSet_eq_error_iff
  have hpredicates (c : Connective) (e : RuleError) :
      checkSome (ConstraintGroup.checked c) (d.predicates.get c) = .error e ↔
        d.FaultyAt (.predicates c) e := by
    simp only [checkSome_eq_error_iff, ConstraintGroup.checked_eq_error_iff, FaultyAt]
  have hmembership (k : MembershipKind) (e : RuleError) :
      checkSome (MembershipGroup.checked k) (d.memberships.get k) = .error e ↔
        d.FaultyAt (.membership k) e := by
    simp only [checkSome_eq_error_iff, MembershipGroup.checked_eq_error_iff, FaultyAt]
  have hbreak : Reports (checkSome checkedBreak d.breakPredicate) d.FaultyAt [.breakOn] :=
    .single fun e => by simp only [checkSome_eq_error_iff, checkedBreak_eq_error_iff, FaultyAt]
  exact hname.bind fun _ => hstatus.bind fun _ =>
    (PerConnective.mapExcept_reports hpredicates).bind fun _ =>
      (PerMembership.mapExcept_reports hmembership).bind fun _ => hbreak.bind fun _ => .pure _

/-- In a complete draft nothing is wrong in any place, and only in a complete one. -/
private theorem complete_iff : d.Complete ↔ ∀ s ∈ Slot.checked, ∀ e, ¬d.FaultyAt s e := by
  have hpredicates (c : Connective) : (∀ e, ¬d.FaultyAt (.predicates c) e) ↔
      ∀ ps ∈ d.predicates.get c, ps ≠ [] ∧ ∀ p ∈ ps, p.WellFormed := by
    simp only [FaultyAt, forall_not_exists_mem_iff, ConstraintGroup.forall_not_faulty_iff]
  have hmembership (k : MembershipKind) : (∀ e, ¬d.FaultyAt (.membership k) e) ↔
      ∀ es ∈ d.memberships.get k, es ≠ [] ∧
        ∀ e ∈ MembershipGroup.lastEntries es, Text.isBlankText e.field = false ∧ e.values ≠ [] := by
    simp only [FaultyAt, forall_not_exists_mem_iff, MembershipGroup.forall_not_faulty_iff]
  have hbreak : (∀ e, ¬d.FaultyAt .breakOn e) ↔ ∀ p ∈ d.breakPredicate, p.WellFormed := by
    simp only [FaultyAt, forall_not_exists_mem_iff, Predicate.forall_not_faulty_iff]
  constructor
  · intro h s hs
    cases s with
    | name => exact forall_not_unset_iff.mpr h.name
    | statusToSet => exact forall_not_unset_iff.mpr h.statusToSet
    | predicates c => exact (hpredicates c).mpr (h.predicates c)
    | membership k => exact (hmembership k).mpr (h.membership k)
    | breakOn => exact hbreak.mpr h.breakOn
    | _ => simp [FaultyAt]
  · intro h
    exact {
      name := forall_not_unset_iff.mp (h .name (by decide))
      statusToSet := forall_not_unset_iff.mp (h .statusToSet (by decide))
      predicates := fun c => (hpredicates c).mp (h (.predicates c) (by cases c <;> decide))
      membership := fun k => (hmembership k).mp (h (.membership k) (by cases k <;> decide))
      breakOn := hbreak.mp (h .breakOn (by decide)) }

/-- A rule is built of a draft if and only if the draft is complete. Of a draft that is not the
first fault is reported: that of the name, the status, the groups by connective, the membership
groups, the break clause, in this order. -/
theorem build_fails_with_first_fault (d : Draft) (kind : NodeKind) :
    ((∃ r, d.build kind = .ok r) ↔ d.Complete) ∧
      ∀ e, d.build kind = .error e ↔ FirstFailure d.FaultyAt Slot.checked e :=
  ⟨(build_reports d kind).exists_ok_iff.trans complete_iff.symm, build_reports d kind⟩

/-- A field that has lost its values comes before one without a name, and both before the
break clause. -/
example : (empty.setAll [.name "zones", .statusToSet "HOT", .breakOn ⟨"", .eq, .int 1⟩,
      .membership .memberOf [⟨"ZONE", [.int 3]⟩, ⟨" ", [.int 2]⟩, ⟨"ZONE", []⟩]]).build .leaf =
    .error (.conflictingConstraint (.membership .memberOf) "field 'ZONE' has no values") := by decide

end Draft
end DecisionRules
