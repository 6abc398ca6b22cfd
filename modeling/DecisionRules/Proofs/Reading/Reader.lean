import DecisionRules.Reading.ParseError
import DecisionRules.Reading.Sequence

/-! How a combined reader comes to succeed: one equivalence for each way to combine; and that
none of these ways makes good a reading that failed for good. -/
namespace DecisionRules.Reading

variable {α β : Type}

def IsFatal {α : Type} (r : Reply α) : Prop := ∃ rest expected, r = .fatal rest expected

namespace Reply

@[simp] theorem ok_bind (a : α) (rest : List Char) (f : α → List Char → Reply β) :
    (ok a rest).bind f = f a rest := rfl

@[simp] theorem ok_commit (a : α) (rest : List Char) : (ok a rest).commit = ok a rest := rfl

@[simp] theorem ok_expecting (a : α) (rest : List Char) (e : Expectation) :
    (ok a rest).expecting e = ok a rest := rfl

theorem bind_eq_ok_iff {r : Reply α} {f : α → List Char → Reply β} {b : β} {rest : List Char} :
    r.bind f = .ok b rest ↔ ∃ a mid, r = .ok a mid ∧ f a mid = .ok b rest := by
  constructor
  · intro h
    cases r with
    | ok a mid => exact ⟨a, mid, rfl, h⟩
    | miss | fatal => cases h
  · intro hr
    obtain ⟨a, mid, rfl, h⟩ := hr
    exact h

@[simp] theorem commit_eq_ok_iff {r : Reply α} {a : α} {rest : List Char} :
    r.commit = .ok a rest ↔ r = .ok a rest := by
  cases r <;> simp [commit]

@[simp] theorem expecting_eq_ok_iff {e : Expectation} {r : Reply α} {a : α} {rest : List Char} :
    r.expecting e = .ok a rest ↔ r = .ok a rest := by
  cases r <;> simp [expecting]

end Reply

theorem IsFatal.bind {r : Reply α} (h : IsFatal r) (f : α → List Char → Reply β) :
    IsFatal (r.bind f) := by
  obtain ⟨rest, expected, rfl⟩ := h
  exact ⟨rest, expected, rfl⟩

theorem IsFatal.commit {r : Reply α} (h : IsFatal r) : IsFatal r.commit := by
  obtain ⟨rest, expected, rfl⟩ := h
  exact ⟨rest, expected, rfl⟩

theorem IsFatal.expecting {r : Reply α} (h : IsFatal r) (e : Expectation) :
    IsFatal (r.expecting e) := by
  obtain ⟨rest, expected, rfl⟩ := h
  exact ⟨rest, expected ++ [e], rfl⟩

namespace Reader

@[simp] theorem run_commit (r : Reader α) (cs : List Char) : r.commit.run cs = (r.run cs).commit :=
  rfl

@[simp] theorem run_expecting (e : Expectation) (r : Reader α) (cs : List Char) :
    (r.expecting e).run cs = (r.run cs).expecting e := rfl

@[simp] theorem run_map (f : α → β) (r : Reader α) (cs : List Char) :
    (f <$> r).run cs = (r.run cs).bind fun a rest => .ok (f a) rest := rfl

/-- The second reader is heard where the first one misses. -/
theorem orElse_of_miss {r : Reader α} {cs rest : List Char} {expected : List Expectation}
    (h : r.run cs = .miss rest expected) (s : Reader α) : (r.orElse s).run cs = s.run cs := by
  simp [orElse, h]

theorem orElse_of_ok {r : Reader α} {cs rest : List Char} {a : α} (h : r.run cs = .ok a rest)
    (s : Reader α) : (r.orElse s).run cs = .ok a rest := by
  simp [orElse, h]

theorem orElse_sound {r s : Reader α} {cs rest : List Char} {a : α}
    (h : (r.orElse s).run cs = .ok a rest) : r.run cs = .ok a rest ∨ s.run cs = .ok a rest := by
  cases hr : r.run cs with
  | ok b mid =>
    rw [orElse_of_ok hr] at h
    exact .inl h
  | miss => exact .inr (by rwa [orElse_of_miss hr] at h)
  | fatal => simp [orElse, hr] at h

theorem word_eq_ok_iff {text : String} {a b : α} {cs rest : List Char} :
    (word text a).run cs = .ok b rest ↔ cs = text.toList ++ rest ∧ b = a := by
  simp only [word]
  constructor
  · intro h
    split at h
    · next hp =>
      obtain ⟨tail, rfl⟩ := hp
      rw [List.drop_left] at h
      cases h
      exact ⟨rfl, rfl⟩
    · cases h
  · intro hr
    obtain ⟨rfl, rfl⟩ := hr
    rw [if_pos (List.prefix_append _ _), List.drop_left]

theorem word_of_not_prefix {text : String} {cs : List Char} (h : ¬text.toList <+: cs) (a : α) :
    (word text a).run cs = .miss cs [] := if_neg h

/-- A text is read if the reader takes all of it. -/
theorem parse_eq_ok_iff {r : Reader α} {text : String} {a : α} :
    r.parse text = .ok a ↔ r.run text.toList = .ok a [] := by
  simp only [parse]
  constructor
  · intro h
    split at h
    · next hr =>
      cases h
      exact hr
    all_goals cases h
  · intro h
    rw [h]

/-- A text that is refused is cut in two where the reader stood. -/
theorem exists_misreading {r : Reader α} {text : String} {e : ParseError}
    (h : r.parse text = .error e) :
    ∃ m : Misreading, e = .malformed m ∧ m.source = text.toList ∧
      m.after = (r.run text.toList).rest := by
  have hsuffix := r.suffix text.toList
  simp only [parse] at h
  split at h <;> cases h <;> next hrun =>
    rw [hrun] at hsuffix ⊢
    exact ⟨_, rfl, upTo_append hsuffix, rfl⟩

theorem parse_error_of_isFatal {r : Reader α} {text : String} (h : IsFatal (r.run text.toList)) :
    ∃ e, r.parse text = .error e := by
  obtain ⟨rest, expected, hrun⟩ := h
  exact ⟨.malformed ⟨upTo text.toList rest, rest, expected⟩, by simp only [parse, hrun]⟩

end Reader
end DecisionRules.Reading
