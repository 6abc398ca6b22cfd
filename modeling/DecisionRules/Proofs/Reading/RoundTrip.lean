import DecisionRules.Proofs.Building.Checks
import DecisionRules.Proofs.Reading.PredicateGrammar

/-! The notation of a predicate read back. The printer decides on quotes, escapes and
digits by itself; what it writes is one derivation of the grammar, whatever the field. -/
namespace DecisionRules

namespace Reading

open Text (StartsOutside startsOutside_cons)

private def writtenCut (p : Predicate) : PredicateCut where
  lead := []
  name := FieldName.spelling p.field.toList
  afterName := [' ']
  comparison := p.comparison.symbol.toList
  afterComparison := [' ']
  value := p.value.spelling
  trail := []

private theorem text_writtenCut (p : Predicate) : (writtenCut p).text = p.spelling := by
  simp [PredicateCut.text, PredicateCut.fromName, PredicateCut.behindName,
    PredicateCut.fromComparison, PredicateCut.behindComparison, PredicateCut.fromValue,
    writtenCut, Predicate.spelling]

theorem comparisonText_symbol (c : Comparison) : ComparisonText c.symbol.toList c := by
  cases c <;> exact .inl rfl

/-- Every value but NaN and the infinities is written as a text of the grammar. -/
private theorem denotes_writtenCut {p : Predicate} (h : p.value.isFinite = true) :
    (writtenCut p).Denotes p where
  lead := .nil _
  name := nameText_spelling p.field ((startsOutside_cons _ _ _).mpr rfl)
  afterName := .blank rfl (.nil _)
  comparison := comparisonText_symbol p.comparison
  afterComparison := .blank rfl (.nil _)
  value := Value.valueText_spelling h
  trail := .nil _

/-- Up to the value nothing depends on the value being one. -/
theorem run_predicate_spelling (p : Predicate)
    (h : StartsOutside startsFiller p.value.spelling) :
    predicate.run p.spelling =
      (value.run p.value.spelling).commit.bind fun v rest => .ok ⟨p.field, p.comparison, v⟩ rest := by
  have hname : NameText (FieldName.spelling p.field.toList) p.field
      (' ' :: (p.comparison.symbol.toList ++ ' ' :: p.value.spelling)) :=
    nameText_spelling p.field ((startsOutside_cons _ _ _).mpr rfl)
  have hcomparison := comparisonText_symbol p.comparison
  have hread := comparison_complete hcomparison
    ((startsOutside_cons (· == '=') ' ' p.value.spelling).mpr rfl)
  rw [Predicate.spelling, List.append_assoc, List.cons_append]
  simp only [predicate, Reader.run_bind, Reader.run_pure, Reader.run_commit, run_filler,
    Reply.ok_bind]
  rw [skipFiller_eq_self hname.outside_filler, fieldName_eq_ok_iff.mpr ⟨_, rfl, hname⟩,
    Reply.ok_bind, skipFiller_blank rfl,
    skipFiller_eq_self (ComparisonText.outside_filler hcomparison _), hread, Reply.ok_commit,
    Reply.ok_bind, skipFiller_blank rfl, skipFiller_eq_self h]

/-- The word for a number that is not finite begins with a letter or a minus sign. -/
theorem spelling_outside {v : Value} (h : v.isFinite = false) (behind : List Char) :
    StartsOutside startsFiller (v.spelling ++ behind) ∧
      StartsOutside (· == ')') (v.spelling ++ behind) := by
  cases v with
  | float x =>
    cases x with
    | finite => cases h
    | nan => exact ⟨(startsOutside_cons _ _ _).mpr rfl, (startsOutside_cons _ _ _).mpr rfl⟩
    | infinity negative =>
      cases negative <;>
        exact ⟨(startsOutside_cons _ _ _).mpr rfl, (startsOutside_cons _ _ _).mpr rfl⟩
  | int | bool | string => cases h

/-- A number that is not finite is written as a word, and a word is no value. -/
private theorem onePredicate_fatal_spelling {p : Predicate} (h : p.value.isFinite = false) :
    ∃ rest expected, onePredicate.run p.spelling = .fatal rest expected := by
  obtain ⟨rest, expected, hmiss⟩ := Value.value_miss_spelling h []
  have hvalue := (spelling_outside h []).1
  rw [List.append_nil] at hmiss hvalue
  refine ⟨rest, expected, ?_⟩
  rw [onePredicate, Reader.run_bind, run_predicate_spelling p hvalue, hmiss]
  rfl

end Reading

open Reading (Reader)

theorem Predicate.parse_text_of_isFinite {p : Predicate} (h : p.value.isFinite = true) :
    Predicate.parse p.text = .ok p := by
  rw [Predicate.parse, Reader.parse_eq_ok_iff, Predicate.text, String.toList_ofList,
    Reading.PredicateCut.onePredicate_eq_ok_iff]
  exact ⟨Reading.writtenCut p, Reading.text_writtenCut p, Reading.denotes_writtenCut h⟩

theorem Predicate.parse_text_error_of_not_isFinite {p : Predicate} (h : p.value.isFinite = false) :
    ∃ e, Predicate.parse p.text = .error e := by
  obtain ⟨rest, expected, hrun⟩ := Reading.onePredicate_fatal_spelling h
  refine ⟨.malformed ⟨Reader.upTo p.spelling rest, rest, expected⟩, ?_⟩
  simp [Predicate.parse, Reader.parse, Predicate.text, hrun]

theorem Predicate.isFinite_of_parse_text {p : Predicate} (h : Predicate.parse p.text = .ok p) :
    p.value.isFinite = true := by
  cases hfinite : p.value.isFinite with
  | true => rfl
  | false =>
    obtain ⟨e, he⟩ := parse_text_error_of_not_isFinite hfinite
    rw [h] at he
    cases he

/-- Reading what was written gives the predicate back unless its value is NaN or an
infinity, for which there is no notation. -/
theorem Predicate.parse_text_eq_ok_iff_isFinite (p : Predicate) :
    (Predicate.parse p.text = .ok p ↔ p.value.isFinite = true) ∧
      (p.value.isFinite = false → ∃ e, Predicate.parse p.text = .error e) ∧
      ∀ field c v, Predicate.checked field c v = .ok p → Predicate.parse p.text = .ok p := by
  refine ⟨⟨?_, parse_text_of_isFinite⟩, parse_text_error_of_not_isFinite,
    fun field c v hchecked => parse_text_of_isFinite (isFinite_of_checked hchecked)⟩
  intro hread
  cases hfinite : p.value.isFinite with
  | true => rfl
  | false =>
    obtain ⟨e, he⟩ := parse_text_error_of_not_isFinite hfinite
    rw [hread] at he
    cases he

/-- A field name out of the notation's own marks, compared with an integer and with NaN. -/
theorem Predicate.parse_text_of_marks :
    Predicate.parse (Predicate.text ⟨"in (\"x\") # \r\n", .le, .int 9⟩) =
        .ok ⟨"in (\"x\") # \r\n", .le, .int 9⟩ ∧
      (∃ e, Predicate.parse (Predicate.text ⟨"in (\"x\") # \r\n", .le, .float .nan⟩) = .error e) ∧
      Predicate.checked "x" .eq (.bool true) = .ok ⟨"x", .eq, .bool true⟩ ∧
      Predicate.parse (Predicate.text ⟨"x", .eq, .bool true⟩) = .ok ⟨"x", .eq, .bool true⟩ := by
  have hint := parse_text_eq_ok_iff_isFinite ⟨"in (\"x\") # \r\n", .le, .int 9⟩
  have hnan := parse_text_eq_ok_iff_isFinite ⟨"in (\"x\") # \r\n", .le, .float .nan⟩
  have hbool := parse_text_eq_ok_iff_isFinite ⟨"x", .eq, .bool true⟩
  have hchecked : Predicate.checked "x" .eq (.bool true) = .ok ⟨"x", .eq, .bool true⟩ := by
    rw [checked_eq_ok_iff]
    decide
  exact ⟨hint.1.mpr rfl, hnan.2.1 rfl, hchecked, hbool.2.2 _ _ _ hchecked⟩

end DecisionRules
