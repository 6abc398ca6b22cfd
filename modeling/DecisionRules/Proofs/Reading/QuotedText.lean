import DecisionRules.Proofs.Reading.Token

/-! Quoted texts to the end of their reading. An opening quote decides that a quoted text
stands there: it is closed, or reading fails for good, behind the backslash of an escape that
there is not or at the end of the input. -/
namespace DecisionRules.Reading

open Text (NoEscape QuotedBody)

/-- What comes of a text behind an opening quote. A body of quoted text goes on as far as
characters and escapes do, and what stands behind it ends the reading: the closing quote, a
backslash without an escape, or nothing. -/
inductive QuotedOutcome : List Char → Reply String → Prop
  | closed {body text : List Char} (rest : List Char) (hbody : QuotedBody body text) :
      QuotedOutcome (body ++ '"' :: rest) (.ok (.ofList text) rest)
  | badEscape {body text rest : List Char} (hbody : QuotedBody body text)
      (hrest : NoEscape rest) :
      QuotedOutcome (body ++ '\\' :: rest) (.fatal rest [.escapeSequence])
  | unclosed {body text : List Char} (hbody : QuotedBody body text) :
      QuotedOutcome body (.fatal [] [.closingQuote])

variable {cs : List Char} {reply : Reply String}

theorem quotedText_run_quote (cs : List Char) :
    quotedText.run ('"' :: cs) = ofUnquoted (Text.unquote cs) := rfl

/-- Whatever stands behind an opening quote, its reading ends in one of the three ways. -/
theorem quotedOutcome_run (cs : List Char) : QuotedOutcome cs (quotedText.run ('"' :: cs)) := by
  rw [quotedText_run_quote]
  cases hread : Text.unquote cs with
  | closed text rest =>
    obtain ⟨body, rfl, hbody⟩ := Text.unquote_sound hread
    exact .closed rest hbody
  | badEscape rest =>
    obtain ⟨body, text, rfl, hbody, hrest⟩ := Text.unquote_badEscape_sound hread
    exact .badEscape hbody hrest
  | unclosed =>
    obtain ⟨text, hbody⟩ := Text.unquote_unclosed_sound hread
    exact .unclosed hbody

/-- Each of the three ways is the only one for its texts. -/
theorem QuotedOutcome.run_eq (h : QuotedOutcome cs reply) : quotedText.run ('"' :: cs) = reply := by
  rw [quotedText_run_quote]
  cases h with
  | closed rest hbody => rw [Text.unquote_complete hbody, ofUnquoted]
  | badEscape hbody hrest => rw [Text.unquote_badEscape_complete hbody hrest, ofUnquoted]
  | unclosed hbody => rw [Text.unquote_unclosed_complete hbody, ofUnquoted]

theorem QuotedOutcome.ne_miss (h : QuotedOutcome cs reply) (rest : List Char)
    (expected : List Expectation) : reply ≠ .miss rest expected := by
  cases h <;> simp

/-- Behind an opening quote the reader ends in one of three ways, each for the texts that are
cut as it says, and never so that another reader could be heard in its place. A text that was
written between quotes is read back from there, up to its closing quote. -/
theorem quotedText_has_three_outcomes :
    (∀ cs reply, quotedText.run ('"' :: cs) = reply ↔ QuotedOutcome cs reply) ∧
      (∀ cs rest expected, quotedText.run ('"' :: cs) ≠ .miss rest expected) ∧
      ∀ (s : String) (rest : List Char),
        quotedText.run (Text.quote s.toList ++ rest) = .ok s rest := by
  refine ⟨?_, ?_, ?_⟩
  · intro cs reply
    constructor
    · rintro rfl
      exact quotedOutcome_run cs
    · exact QuotedOutcome.run_eq
  · intro cs
    exact (quotedOutcome_run cs).ne_miss
  · intro s rest
    have hcut : Text.quote s.toList ++ rest =
        '"' :: (s.toList.flatMap Text.writeUnit ++ '"' :: rest) := by simp [Text.quote]
    rw [hcut, quotedText_run_quote, Text.unquote_flatMap_writeUnit, ofUnquoted,
      String.ofList_toList]

/-- The first backslash escapes a quote, the second is before a letter that is no mark. -/
example : quotedText.run ['"', 'a', '\\', '"', '\n', '\\', 'q', '"'] =
    .fatal ['q', '"'] [.escapeSequence] := rfl

end DecisionRules.Reading
