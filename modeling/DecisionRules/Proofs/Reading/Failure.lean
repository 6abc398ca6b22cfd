import DecisionRules.Proofs.Reading.Value

/-! Where readers stand when they fail. Each reader of a token fails inside a text of its
language: what it has passed by then begins such a text. -/
namespace DecisionRules.Reading

open Text (QuotedBody)

variable {α β : Type}

namespace Reply

def FailsAt : Reply α → List Char → Prop
  | .ok _ _, _ => False
  | .miss stood _, rest | .fatal stood _, rest => stood = rest

@[simp] theorem ok_failsAt {a : α} {mid rest : List Char} : ¬(ok a mid).FailsAt rest := id

theorem bind_failsAt_iff {r : Reply α} {f : α → List Char → Reply β} {rest : List Char} :
    (r.bind f).FailsAt rest ↔ r.FailsAt rest ∨ ∃ a mid, r = .ok a mid ∧ (f a mid).FailsAt rest := by
  cases r with
  | ok a mid =>
    constructor
    · intro h
      exact .inr ⟨a, mid, rfl, h⟩
    · intro h
      rcases h with h | ⟨_, _, heq, h⟩
      · exact absurd h ok_failsAt
      · cases heq
        exact h
  | miss | fatal => simp [bind, FailsAt]

@[simp] theorem commit_failsAt_iff {r : Reply α} {rest : List Char} :
    r.commit.FailsAt rest ↔ r.FailsAt rest := by
  cases r <;> rfl

@[simp] theorem expecting_failsAt_iff {r : Reply α} {e : Expectation} {rest : List Char} :
    (r.expecting e).FailsAt rest ↔ r.FailsAt rest := by
  cases r <;> rfl

end Reply

theorem Reader.orElse_failsAt {r s : Reader α} {cs rest : List Char}
    (h : ((r.orElse s).run cs).FailsAt rest) :
    (r.run cs).FailsAt rest ∨ (s.run cs).FailsAt rest := by
  cases hr : r.run cs with
  | ok a mid =>
    rw [orElse_of_ok hr] at h
    cases h
  | miss =>
    rw [orElse_of_miss hr] at h
    exact .inr h
  | fatal =>
    simp only [orElse, hr] at h
    exact .inl h

/-- With more text behind it the text is one of the language. -/
def Begins (Item : List Char → α → Prop) (before : List Char) : Prop :=
  ∃ u a, Item (before ++ u) a

/-- Wherever the reader fails, it has passed a text that begins one of the language. -/
def FailsInside (r : Reader α) (Item : List Char → α → Prop) : Prop :=
  ∀ {cs rest}, (r.run cs).FailsAt rest → ∃ before, cs = before ++ rest ∧ Begins Item before

variable {cs rest : List Char}

theorem word_failsAt {text : String} {a : α} (h : ((Reader.word text a).run cs).FailsAt rest) :
    rest = cs := by
  simp only [Reader.word] at h
  split at h
  · cases h
  · exact h.symm

private theorem choice_words_failsAt {words : List (String × α)}
    (h : ((Reader.choice (words.map fun (text, a) => Reader.word text a)).run cs).FailsAt rest) :
    rest = cs := by
  induction words with
  | nil => exact Eq.symm h
  | cons w words ih =>
    rcases Reader.orElse_failsAt h with h | h
    · exact word_failsAt h
    · exact ih h

theorem comparison_failsAt (h : (comparison.run cs).FailsAt rest) : rest = cs := by
  rw [comparison, Reader.run_expecting, Reply.expecting_failsAt_iff] at h
  exact choice_words_failsAt h

def QuotedText (cs : List Char) (s : String) : Prop :=
  ∃ body text, cs = '"' :: (body ++ ['"']) ∧ QuotedBody body text ∧ s = .ofList text

private theorem begins_quotedText_nil : Begins QuotedText [] :=
  ⟨['"', '"'], _, [], [], rfl, .nil, rfl⟩

/-- Behind a backslash an escaped character is missing, and at the end a quote. -/
theorem quotedText_failsInside : FailsInside quotedText QuotedText := by
  intro cs rest h
  simp only [quotedText] at h
  split at h
  · next behind =>
    cases hread : Text.unquote behind with
    | closed =>
      rw [hread] at h
      cases h
    | badEscape =>
      rw [hread] at h
      cases h
      obtain ⟨body, text, rfl, hbody, -⟩ := Text.unquote_badEscape_sound hread
      have hfeed : QuotedBody ['\\', 'n'] ['\n'] := .escaped (by decide) .nil
      exact ⟨'"' :: (body ++ ['\\']), by simp, ['n', '"'], _, _, _, by simp,
        hbody.append hfeed, rfl⟩
    | unclosed =>
      rw [hread] at h
      cases h
      obtain ⟨text, hbody⟩ := Text.unquote_unclosed_sound hread
      exact ⟨'"' :: behind, by simp, ['"'], _, behind, text, rfl, hbody, rfl⟩
  · cases h
    exact ⟨[], rfl, begins_quotedText_nil⟩

/-- A bare name never fails behind its first character, and a quoted one can be followed by
anything. -/
theorem fieldName_failsInside :
    FailsInside fieldName fun text name => ∀ behind, NameText text name behind := by
  have hquoted {before : List Char} (h : Begins QuotedText before) :
      Begins (fun text name => ∀ behind, NameText text name behind) before := by
    obtain ⟨u, name, body, text, htext, hbody, rfl⟩ := h
    refine ⟨u, .ofList text, fun behind => ?_⟩
    rw [htext]
    exact .quoted behind hbody
  intro cs rest h
  rw [fieldName, Reader.run_expecting, Reply.expecting_failsAt_iff] at h
  rcases Reader.orElse_failsAt h with h | h
  · have hrest : rest = cs := by
      simp only [bareName] at h
      split at h
      · exact Eq.symm h
      · split at h
        · cases h
        · exact Eq.symm h
    exact ⟨[], by simp [hrest], hquoted begins_quotedText_nil⟩
  · obtain ⟨before, hcs, hbegins⟩ := quotedText_failsInside h
    exact ⟨before, hcs, hquoted hbegins⟩

private theorem begins_valueText_minusText (negative : Bool) :
    Begins ValueText (Numeral.minusText negative) := by
  have hone : Numeral.Written (Numeral.minusText negative ++ ['1']) ⟨negative, ['1'], none, none⟩ :=
    .mk negative (Numeral.isDigits_singleton rfl) .absent .absent
  cases negative with
  | true => exact ⟨['1'], .int (-1), valueText_of_written hone rfl⟩
  | false => exact ⟨['1'], .int 1, valueText_of_written hone rfl⟩

/-- Digits are missing at the beginning or behind a minus sign; behind an integer that is
too large a fraction makes another number of it. -/
private theorem number_failsInside : FailsInside number ValueText := by
  intro cs rest h
  simp only [number] at h
  split at h
  · cases h
    exact ⟨_, Numeral.eq_minusText_append cs, begins_valueText_minusText _⟩
  · next n tail hread =>
    split at h
    · cases h
    · next hnone =>
      cases h
      have hint : n.isInteger = true := by
        cases hn : n.isInteger with
        | true => rfl
        | false => simp [ofNumeral?, hn] at hnone
      have hwhole : Numeral.read? cs = some (n, rest) := hread
      obtain ⟨text, hcs, hwritten⟩ := Numeral.read?_sound hwhole
      obtain ⟨m, hm, hfloat⟩ := hwritten.point_zero hint
      exact ⟨text, hcs, ['.', '0'], _, .float hm hfloat m.rounds_toBinary64⟩

theorem value_failsInside : FailsInside value ValueText := by
  intro cs rest h
  rw [value, Reader.run_expecting, Reply.expecting_failsAt_iff] at h
  rcases Reader.orElse_failsAt h with h | h
  · rw [Reader.run_map, Reply.bind_failsAt_iff] at h
    rcases h with h | ⟨_, _, _, ⟨⟩⟩
    obtain ⟨before, hcs, u, s, body, text, htext, hbody, -⟩ := quotedText_failsInside h
    refine ⟨before, hcs, u, .string (.ofList text), ?_⟩
    rw [htext]
    exact .string hbody
  rcases Reader.orElse_failsAt h with h | h
  · exact ⟨[], by simp [word_failsAt h], begins_valueText_minusText false⟩
  rcases Reader.orElse_failsAt h with h | h
  · exact ⟨[], by simp [word_failsAt h], begins_valueText_minusText false⟩
  · exact number_failsInside h

end DecisionRules.Reading
