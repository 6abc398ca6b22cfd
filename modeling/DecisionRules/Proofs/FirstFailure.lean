import DecisionRules.Proofs.Success

/-! What computations that may fail fail with. Of checks made one after another the first
to fail is the one that is reported, so a sequence of computations reports the first failure
along the list of all that they check. -/
namespace DecisionRules

variable {α β γ ε : Type}

theorem forall_ne_error_iff {x : Except ε β} : (∀ e, x ≠ .error e) ↔ ∃ b, x = .ok b := by
  cases x <;> simp

inductive FirstFailure (fails : α → ε → Prop) : List α → ε → Prop
  | head {x : α} {xs : List α} {e : ε} (h : fails x e) : FirstFailure fails (x :: xs) e
  | tail {x : α} {xs : List α} {e : ε} (hpass : ∀ e', ¬fails x e') (h : FirstFailure fails xs e) :
      FirstFailure fails (x :: xs) e

variable {fails : α → ε → Prop} {xs ys : List α} {e : ε}

private theorem FirstFailure.exists_mem (h : FirstFailure fails xs e) : ∃ x ∈ xs, fails x e := by
  induction h with
  | head hx => exact ⟨_, List.mem_cons_self, hx⟩
  | tail _ _ ih =>
    obtain ⟨x, hx, hfail⟩ := ih
    exact ⟨x, List.mem_cons_of_mem _ hx, hfail⟩

/-- There is a first failure if and only if there is a failure. -/
theorem exists_firstFailure_iff : (∃ e, FirstFailure fails xs e) ↔ ∃ x ∈ xs, ∃ e, fails x e := by
  constructor
  · intro h
    obtain ⟨e, he⟩ := h
    obtain ⟨x, hx, hfail⟩ := he.exists_mem
    exact ⟨x, hx, e, hfail⟩
  · intro h
    induction xs with
    | nil => simp at h
    | cons x xs ih =>
      by_cases hx : ∃ e, fails x e
      · obtain ⟨e, he⟩ := hx
        exact ⟨e, .head he⟩
      · obtain ⟨e, he⟩ := ih (by simpa [hx] using h)
        exact ⟨e, .tail (not_exists.mp hx) he⟩

private theorem firstFailure_append_iff : FirstFailure fails (xs ++ ys) e ↔
    FirstFailure fails xs e ∨ (∀ x ∈ xs, ∀ e', ¬fails x e') ∧ FirstFailure fails ys e := by
  induction xs with
  | nil =>
    constructor
    · intro h
      exact .inr ⟨by simp, h⟩
    · intro h
      rcases h with h | ⟨_, h⟩
      · cases h
      · exact h
  | cons x xs ih =>
    constructor
    · intro h
      cases h with
      | head hx => exact .inl (.head hx)
      | tail hpass hrest =>
        rcases ih.mp hrest with h | ⟨hxs, h⟩
        · exact .inl (.tail hpass h)
        · exact .inr ⟨List.forall_mem_cons.mpr ⟨hpass, hxs⟩, h⟩
    · intro h
      rcases h with h | ⟨hall, h⟩
      · cases h with
        | head hx => exact .head hx
        | tail hpass hrest => exact .tail hpass (ih.mpr (.inl hrest))
      · obtain ⟨hpass, hxs⟩ := List.forall_mem_cons.mp hall
        exact .tail hpass (ih.mpr (.inr ⟨hxs, h⟩))

/-- A first failure said in other words is the first failure in the other words. -/
theorem firstFailure_map_iff {ε' : Type} {f : ε → ε'} {e' : ε'} :
    FirstFailure (fun x e' => ∃ e, fails x e ∧ e' = f e) xs e' ↔
      ∃ e, FirstFailure fails xs e ∧ e' = f e := by
  constructor
  · intro h
    induction h with
    | head hx =>
      obtain ⟨e, hfail, rfl⟩ := hx
      exact ⟨e, .head hfail, rfl⟩
    | tail hpass _ ih =>
      obtain ⟨e, hfirst, rfl⟩ := ih
      exact ⟨e, .tail (fun e hfail => hpass (f e) ⟨e, hfail, rfl⟩) hfirst, rfl⟩
  · rintro ⟨e, h, rfl⟩
    induction h with
    | head hx => exact .head ⟨_, hx, rfl⟩
    | tail hpass _ ih =>
      refine .tail ?_ ih
      rintro _ ⟨e, hfail, -⟩
      exact hpass e hfail

/-- A computation fails with the first failure along a list and with nothing else. -/
def Reports (x : Except ε β) (fails : α → ε → Prop) (xs : List α) : Prop :=
  ∀ e, x = .error e ↔ FirstFailure fails xs e

namespace Reports

theorem pure (b : β) : Reports (Pure.pure b) fails [] := by
  intro e
  constructor
  · intro h
    cases h
  · intro h
    cases h

theorem single {x : Except ε β} {a : α} (h : ∀ e, x = .error e ↔ fails a e) :
    Reports x fails [a] := by
  intro e
  rw [h]
  constructor
  · exact .head
  · intro hfirst
    cases hfirst with
    | head ha => exact ha
    | tail _ hnone => cases hnone

/-- A computation succeeds if nothing fails that it reports on. -/
theorem exists_ok_iff {x : Except ε β} (h : Reports x fails xs) :
    (∃ b, x = .ok b) ↔ ∀ a ∈ xs, ∀ e, ¬fails a e := by
  have hfailing : (∃ e, x = .error e) ↔ ∃ a ∈ xs, ∃ e, fails a e :=
    (exists_congr h).trans exists_firstFailure_iff
  cases x with
  | ok b =>
    have hnone : ¬∃ a ∈ xs, ∃ e, fails a e := fun ha => by simpa using hfailing.mpr ha
    simpa using hnone
  | error e =>
    have hsome : ∃ a ∈ xs, ∃ e, fails a e := hfailing.mp ⟨e, rfl⟩
    simpa using hsome

/-- One computation behind another reports what fails along both lists. -/
theorem bind {x : Except ε β} {f : β → Except ε γ} (hx : Reports x fails xs)
    (hf : ∀ b, Reports (f b) fails ys) : Reports (x >>= f) fails (xs ++ ys) := by
  intro e
  rw [firstFailure_append_iff]
  cases x with
  | ok b =>
    have hpass : ∀ a ∈ xs, ∀ e, ¬fails a e := hx.exists_ok_iff.mp ⟨b, rfl⟩
    have hnone : ¬FirstFailure fails xs e := fun h => by simpa using (hx e).mpr h
    have hnext : ((Except.ok b : Except ε β) >>= f) = f b := rfl
    rw [hnext, hf b e, or_iff_right hnone, and_iff_right hpass]
  | error e' =>
    have hstop : ((Except.error e' : Except ε β) >>= f) = .error e' := rfl
    have hsome : ¬∀ a ∈ xs, ∀ e, ¬fails a e := fun hpass => by
      simpa using hx.exists_ok_iff.mpr hpass
    rw [hstop, ← hx e, or_iff_left fun h => hsome h.1, Except.error.injEq, Except.error.injEq]

/-- A check of all items reports the first that fails. -/
theorem forM {f : α → Except ε Unit} (h : ∀ a e, f a = .error e ↔ fails a e) :
    Reports (xs.forM f) fails xs := by
  induction xs with
  | nil => exact pure ()
  | cons a xs ih => exact (single (h a)).bind fun _ => ih

end Reports

variable {δ : Type}

theorem PerConnective.mapExcept_reports {s : PerConnective γ} {f : Connective → γ → Except ε δ}
    {place : Connective → α} (h : ∀ c e, f c (s.get c) = .error e ↔ fails (place c) e) :
    Reports (s.mapExcept f) fails [place .allOf, place .anyOf, place .oneOf, place .noneOf] :=
  (Reports.single (h .allOf)).bind fun _ => (Reports.single (h .anyOf)).bind fun _ =>
    (Reports.single (h .oneOf)).bind fun _ => (Reports.single (h .noneOf)).bind fun _ =>
      Reports.pure _

theorem PerMembership.mapExcept_reports {s : PerMembership γ} {f : MembershipKind → γ → Except ε δ}
    {place : MembershipKind → α} (h : ∀ k e, f k (s.get k) = .error e ↔ fails (place k) e) :
    Reports (s.mapExcept f) fails [place .memberOf, place .notMemberOf] :=
  (Reports.single (h .memberOf)).bind fun _ => (Reports.single (h .notMemberOf)).bind fun _ =>
    Reports.pure _

end DecisionRules
