import DecisionRules.Predicate
import DecisionRules.Reading.Filler

/-! The tokens of the notation: quoted texts, field names, comparisons and values. -/
namespace DecisionRules.Reading

def ofUnquoted : Text.Unquoted → Reply String
  | .closed text rest => .ok (String.ofList text) rest
  | .badEscape rest => .fatal rest [.escapeSequence]
  | .unclosed => .fatal [] [.closingQuote]

theorem ofUnquoted_push_rest (c : Char) (u : Text.Unquoted) :
    (ofUnquoted (u.push c)).rest = (ofUnquoted u).rest := by
  cases u <;> rfl

theorem ofUnquoted_suffix (cs : List Char) : (ofUnquoted (Text.unquote cs)).rest <:+ cs := by
  fun_induction Text.unquote cs with
  | case1 => exact List.suffix_rfl
  | case2 rest => exact List.suffix_cons _ rest
  | case3 => exact List.nil_suffix
  | case4 mark rest c h ih =>
    rw [ofUnquoted_push_rest]
    exact ih.trans ((List.suffix_cons mark rest).trans (List.suffix_cons _ _))
  | case5 mark rest h => exact List.suffix_cons _ _
  | case6 c rest _ _ _ ih =>
    rw [ofUnquoted_push_rest]
    exact ih.trans (List.suffix_cons c rest)

def quotedText : Reader String where
  run
    | '"' :: cs => ofUnquoted (Text.unquote cs)
    | cs => .miss cs []
  suffix cs := by
    split
    · next cs => exact (ofUnquoted_suffix cs).trans (List.suffix_cons _ cs)
    · exact List.suffix_rfl

def bareName : Reader String where
  run
    | [] => .miss [] []
    | c :: cs =>
      if FieldName.isStart c then
        .ok (String.ofList (c :: cs.takeWhile FieldName.isPart)) (cs.dropWhile FieldName.isPart)
      else .miss (c :: cs) []
  suffix cs := by
    split
    · exact List.suffix_rfl
    · next c cs =>
      split
      · exact (List.dropWhile_suffix _).trans (List.suffix_cons c cs)
      · exact List.suffix_rfl

def fieldName : Reader String := (bareName.orElse quotedText).expecting .fieldName

/-- A comparison by its symbol or its word; what follows a word may touch it. -/
def comparison : Reader Comparison :=
  (Reader.choice (Comparison.spellings.map fun (text, c) => Reader.word text c)).expecting
    .comparison

def ofNumeral? (n : Numeral) : Option Value :=
  if n.isInteger then n.toInt64?.map .int else some (.float n.toBinary64)

/-- A number. It misses behind a minus sign that stands alone and fails for good behind
the digits of an integer that is too large. -/
def number : Reader Value where
  run cs :=
    let (negative, body) := Numeral.readMinus cs
    match Numeral.readUnsigned negative body with
    | none => .miss body []
    | some (n, rest) =>
      match ofNumeral? n with
      | some v => .ok v rest
      | none => .fatal rest []
  suffix cs := by
    have hb := Numeral.readMinus_suffix cs
    generalize Numeral.readMinus cs = sign at hb
    obtain ⟨negative, body⟩ := sign
    dsimp only
    split
    · exact hb
    · next n rest h =>
      have hr := (Numeral.readUnsigned_suffix h).trans hb
      split <;> exact hr

def value : Reader Value :=
  ((Value.string <$> quotedText).orElse
    ((Reader.word "true" (.bool true)).orElse
      ((Reader.word "false" (.bool false)).orElse number))).expecting .value

end DecisionRules.Reading
