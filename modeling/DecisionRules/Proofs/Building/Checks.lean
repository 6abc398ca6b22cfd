import DecisionRules.Draft
import DecisionRules.Proofs.Success

/-! The checks of a rule's parts. Each is a condition on the part, and a part that passes
is kept as it was given but for a membership group, which keeps one entry a field. -/
namespace DecisionRules

namespace Predicate

theorem fault?_eq_none_iff {p : Predicate} :
    p.fault? = none ↔ Text.isBlankText p.field = false ∧ p.value.isFinite = true ∧
      p.comparison.accepts p.value = true := by
  rw [fault?]
  cases Text.isBlankText p.field <;> cases p.value.isFinite <;>
    cases p.comparison.accepts p.value <;> simp

theorem checked_eq_ok_iff {field : String} {c : Comparison} {v : Value} {p : Predicate} :
    Predicate.checked field c v = .ok p ↔ p = ⟨field, c, v⟩ ∧ p.fault? = none := by
  simp only [checked, unit_bind_eq_ok_iff, pure_eq_ok_iff, check_eq_ok_iff]
  constructor
  · intro h
    obtain ⟨hfault, rfl⟩ := h
    exact ⟨rfl, hfault⟩
  · intro h
    obtain ⟨rfl, hfault⟩ := h
    exact ⟨hfault, rfl⟩

/-- Checking a predicate that stands already. -/
theorem checked_self_eq_ok_iff {p q : Predicate} :
    Predicate.checked p.field p.comparison p.value = .ok q ↔ p.fault? = none ∧ q = p := by
  rw [checked_eq_ok_iff]
  constructor
  · intro h
    obtain ⟨rfl, hfault⟩ := h
    exact ⟨hfault, rfl⟩
  · intro h
    obtain ⟨hfault, rfl⟩ := h
    exact ⟨rfl, hfault⟩

theorem isFinite_of_checked {field : String} {c : Comparison} {v : Value} {p : Predicate}
    (h : Predicate.checked field c v = .ok p) : p.value.isFinite = true :=
  (fault?_eq_none_iff.mp (checked_eq_ok_iff.mp h).2).2.1

end Predicate

namespace ConstraintGroup

structure Sound (g : ConstraintGroup) : Prop where
  ne_nil : g.predicates ≠ []
  fault_eq_none : ∀ p ∈ g.predicates, p.fault? = none

theorem checked_eq_ok_iff {c : Connective} {ps : List Predicate} {g : ConstraintGroup} :
    checked c ps = .ok g ↔ g = ⟨c, ps⟩ ∧ g.Sound := by
  have hchecks : checked c ps = .ok g ↔
      ps ≠ [] ∧ (∀ p ∈ ps, p.fault? = none) ∧ (⟨c, ps⟩ : ConstraintGroup) = g := by
    rw [checked]
    cases ps with
    | nil => simp [throw, throwThe, MonadExceptOf.throw, bind, Except.bind]
    | cons p ps =>
      simp only [List.isEmpty_cons, Bool.false_eq_true, if_false, unit_bind_eq_ok_iff,
        pure_eq_ok_iff, forM_eq_ok_iff, Predicate.check_eq_ok_iff]
      simp
  rw [hchecks]
  constructor
  · intro h
    obtain ⟨hne, hfault, rfl⟩ := h
    exact ⟨rfl, hne, hfault⟩
  · intro h
    obtain ⟨rfl, hne, hfault⟩ := h
    exact ⟨hne, hfault, rfl⟩

end ConstraintGroup

namespace MembershipGroup

structure SoundEntry (e : MembershipEntry) : Prop where
  visible : Text.isBlankText e.field = false
  ne_nil : e.values ≠ []

structure Sound (g : MembershipGroup) : Prop where
  ne_nil : g.entries ≠ []
  soundEntry : ∀ e ∈ g.entries, SoundEntry e

theorem checkEntry_eq_ok_iff {k : MembershipKind} {e : MembershipEntry} :
    checkEntry k e = .ok () ↔ SoundEntry e := by
  rw [checkEntry]
  constructor
  · intro h
    cases hblank : Text.isBlankText e.field with
    | true => simp [hblank] at h
    | false =>
      refine ⟨hblank, ?_⟩
      rintro hnil
      simp [hblank, hnil] at h
  · intro hr
    obtain ⟨hvisible, hne⟩ := hr
    simp [hvisible, hne]

theorem check_eq_ok_iff {g : MembershipGroup} : g.check = .ok () ↔ g.Sound := by
  rw [check]
  constructor
  · intro h
    cases hentries : g.entries with
    | nil => simp [hentries] at h
    | cons e es =>
      have hall : ∀ e ∈ g.entries, checkEntry g.kind e = .ok () := by
        apply forM_eq_ok_iff.mp
        simpa [hentries] using h
      exact ⟨by simp [hentries], fun e he => checkEntry_eq_ok_iff.mp (hall e he)⟩
  · intro hr
    obtain ⟨hne, hsound⟩ := hr
    rw [if_neg (by simpa using hne)]
    exact forM_eq_ok_iff.mpr fun e he => checkEntry_eq_ok_iff.mpr (hsound e he)

theorem checked_eq_ok_iff {k : MembershipKind} {es : List MembershipEntry} {g : MembershipGroup} :
    checked k es = .ok g ↔ g = ofEntries k es ∧ g.Sound := by
  simp only [checked, unit_bind_eq_ok_iff, pure_eq_ok_iff, check_eq_ok_iff]
  constructor
  · intro h
    obtain ⟨hsound, rfl⟩ := h
    exact ⟨rfl, hsound⟩
  · intro h
    obtain ⟨rfl, hsound⟩ := h
    exact ⟨hsound, rfl⟩

def Distinct (xs : List MembershipEntry) : Prop := (xs.map (·.field)).Nodup

private theorem distinct_nil : Distinct [] := List.nodup_nil

private theorem distinct_put {xs : List MembershipEntry} (h : Distinct xs) (e : MembershipEntry) :
    Distinct (put xs e) := by
  rw [Distinct, map_field_put]
  split
  · exact h
  · next hnew =>
    rw [List.nodup_append]
    refine ⟨h, by simp, ?_⟩
    rintro _ hmem _ he rfl
    rw [List.mem_singleton] at he
    exact hnew (he ▸ hmem)

private theorem distinct_foldl_put {xs : List MembershipEntry} (h : Distinct xs)
    (es : List MembershipEntry) : Distinct (es.foldl put xs) := by
  induction es generalizing xs with
  | nil => exact h
  | cons e es ih => exact ih (distinct_put h e)

theorem distinct_ofEntries (k : MembershipKind) (es : List MembershipEntry) :
    Distinct (ofEntries k es).entries := distinct_foldl_put distinct_nil es

private theorem put_of_not_mem {xs : List MembershipEntry} {e : MembershipEntry}
    (h : e.field ∉ xs.map (·.field)) : put xs e = xs ++ [e] := by
  induction xs with
  | nil => rfl
  | cons x xs ih =>
    rw [List.map_cons, List.mem_cons, not_or] at h
    rw [put, if_neg (Ne.symm h.1), ih h.2, List.cons_append]

private theorem foldl_put_append {xs es : List MembershipEntry} (h : Distinct (xs ++ es)) :
    es.foldl put xs = xs ++ es := by
  induction es generalizing xs with
  | nil => simp
  | cons e es ih =>
    have hnew : e.field ∉ xs.map (·.field) := by
      rw [Distinct, List.map_append, List.map_cons] at h
      intro hmem
      exact (List.nodup_append.mp h).2.2 _ hmem _ List.mem_cons_self rfl
    rw [List.append_cons] at h
    rw [List.foldl_cons, put_of_not_mem hnew, ih h, List.append_assoc, List.singleton_append]

/-- A group of entries for different fields is taken as it is. -/
theorem ofEntries_entries {k : MembershipKind} {es : List MembershipEntry} (h : Distinct es) :
    ofEntries k es = ⟨k, es⟩ := by
  rw [ofEntries, foldl_put_append (by simpa using h), List.nil_append]

/-- Merging entries a second time changes nothing. -/
theorem ofEntries_ofEntries (k l : MembershipKind) (es : List MembershipEntry) :
    ofEntries k (ofEntries l es).entries = ofEntries k es := by
  rw [ofEntries_entries (distinct_ofEntries l es)]
  rfl

theorem checked_ofEntries (k l : MembershipKind) (es : List MembershipEntry) :
    checked k (ofEntries l es).entries = checked k es := by
  rw [checked, checked, ofEntries_ofEntries]

end MembershipGroup

end DecisionRules
