import DecisionRules.GroupKind

/-! When computations that may fail succeed: each way to combine them succeeds exactly if
its parts do. What a success says can then be read off without running anything. -/
namespace DecisionRules

variable {α β ε : Type}

theorem bind_eq_ok_iff {x : Except ε α} {f : α → Except ε β} {b : β} :
    (x >>= f) = .ok b ↔ ∃ a, x = .ok a ∧ f a = .ok b := by
  cases x <;> simp [bind, Except.bind]

theorem pure_eq_ok_iff {a b : α} : (pure a : Except ε α) = .ok b ↔ a = b := by
  simp [pure, Except.pure]

theorem map_eq_ok_iff {x : Except ε α} {f : α → β} {b : β} :
    f <$> x = .ok b ↔ ∃ a, x = .ok a ∧ f a = b := by
  cases x <;> simp [Functor.map, Except.map]

theorem unit_bind_eq_ok_iff {x : Except ε Unit} {f : Unit → Except ε β} {b : β} :
    (x >>= f) = .ok b ↔ x = .ok () ∧ f () = .ok b := by
  rw [bind_eq_ok_iff]
  exact ⟨fun ⟨_, hx, hf⟩ => ⟨hx, hf⟩, fun ⟨hx, hf⟩ => ⟨(), hx, hf⟩⟩

/-- A check of all items succeeds if it succeeds for each. -/
theorem forM_eq_ok_iff {xs : List α} {f : α → Except ε Unit} :
    xs.forM f = .ok () ↔ ∀ x ∈ xs, f x = .ok () := by
  induction xs with
  | nil => simp [List.forM, pure_eq_ok_iff]
  | cons x xs ih =>
    rw [List.forall_mem_cons, ← ih]
    exact unit_bind_eq_ok_iff

/-- All items are turned into others if each is turned into the one in its place. -/
theorem mapM_eq_ok_iff {xs : List α} {ys : List β} {f : α → Except ε β} :
    xs.mapM f = .ok ys ↔ xs.map f = ys.map .ok := by
  induction xs generalizing ys with
  | nil => cases ys <;> simp [pure_eq_ok_iff]
  | cons x xs ih =>
    simp only [List.mapM_cons, bind_eq_ok_iff, pure_eq_ok_iff, ih]
    cases ys with
    | nil => simp
    | cons y ys => simp

theorem PerConnective.mapExcept_eq_ok_iff {s : PerConnective α} {t : PerConnective β}
    {f : Connective → α → Except ε β} :
    s.mapExcept f = .ok t ↔ ∀ c, f c (s.get c) = .ok (t.get c) := by
  simp only [mapExcept, bind_eq_ok_iff, pure_eq_ok_iff]
  constructor
  · intro h c
    obtain ⟨_, hall, _, hany, _, hone, _, hnone, rfl⟩ := h
    cases c
    · exact hall
    · exact hany
    · exact hone
    · exact hnone
  · intro h
    exact ⟨_, h .allOf, _, h .anyOf, _, h .oneOf, _, h .noneOf, rfl⟩

theorem PerMembership.mapExcept_eq_ok_iff {s : PerMembership α} {t : PerMembership β}
    {f : MembershipKind → α → Except ε β} :
    s.mapExcept f = .ok t ↔ ∀ k, f k (s.get k) = .ok (t.get k) := by
  simp only [mapExcept, bind_eq_ok_iff, pure_eq_ok_iff]
  constructor
  · intro h k
    obtain ⟨_, hin, _, hout, rfl⟩ := h
    cases k
    · exact hin
    · exact hout
  · intro h
    exact ⟨_, h .memberOf, _, h .notMemberOf, rfl⟩

theorem PerMembership.mapExcept_congr {s t : PerMembership α} {f : MembershipKind → α → Except ε β}
    (h : ∀ k, f k (s.get k) = f k (t.get k)) : s.mapExcept f = t.mapExcept f := by
  have hin : f .memberOf s.memberOf = f .memberOf t.memberOf := h .memberOf
  have hout : f .notMemberOf s.notMemberOf = f .notMemberOf t.notMemberOf := h .notMemberOf
  rw [mapExcept, mapExcept, hin, hout]

@[simp] theorem PerConnective.get_map (f : α → β) (s : PerConnective α) (c : Connective) :
    (s.map f).get c = f (s.get c) := by
  cases c <;> rfl

@[simp] theorem PerMembership.get_map (f : α → β) (s : PerMembership α) (k : MembershipKind) :
    (s.map f).get k = f (s.get k) := by
  cases k <;> rfl

end DecisionRules
