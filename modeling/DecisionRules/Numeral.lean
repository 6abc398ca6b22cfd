import DecisionRules.Binary64.Rounding

/-! Numerals: decimal numbers as they are written, `-12`, `90.0`, `1.5e-7`. Reading
takes the longest numeral and leaves an incomplete fraction or exponent unread. -/
namespace DecisionRules

/-- A number as written. A numeral with neither a fraction nor an exponent
stands for an integer, any other for a floating-point number. -/
structure Numeral where
  negative : Bool
  whole : List Char
  fraction : Option (List Char)
  exponent : Option Int
deriving DecidableEq, Repr

namespace Numeral

def signedDigits (n : Int) : List Char :=
  (if n < 0 then ['-'] else []) ++ Nat.toDigits 10 n.natAbs

def ofInt (n : Int) : Numeral := ⟨decide (n < 0), Nat.toDigits 10 n.natAbs, none, none⟩

def render (n : Numeral) : List Char :=
  (if n.negative then ['-'] else []) ++ n.whole
    ++ (match n.fraction with | none => [] | some ds => '.' :: ds)
    ++ (match n.exponent with | none => [] | some e => 'e' :: signedDigits e)

def readDigits (cs : List Char) : Option (List Char × List Char) :=
  match cs.takeWhile Char.isDigit with
  | [] => none
  | d :: ds => some (d :: ds, cs.dropWhile Char.isDigit)

def readMinus : List Char → Bool × List Char
  | '-' :: cs => (true, cs)
  | cs => (false, cs)

/-- An optional sign of either kind; `true` stands for minus. -/
def readSign : List Char → Bool × List Char
  | '+' :: cs => (false, cs)
  | cs => readMinus cs

def readFraction : List Char → Option (List Char) × List Char
  | '.' :: cs =>
    match readDigits cs with
    | some (ds, rest) => (some ds, rest)
    | none => (none, '.' :: cs)
  | cs => (none, cs)

def signedValue (negative : Bool) (digits : List Char) : Int :=
  if negative then -(Nat.ofDigitChars 10 digits 0 : Int) else Nat.ofDigitChars 10 digits 0

def readExponent : List Char → Option Int × List Char
  | [] => (none, [])
  | c :: cs =>
    if c = 'e' ∨ c = 'E' then
      let (negative, body) := readSign cs
      match readDigits body with
      | some (ds, rest) => (some (signedValue negative ds), rest)
      | none => (none, c :: cs)
    else (none, c :: cs)

def readUnsigned (negative : Bool) (cs : List Char) : Option (Numeral × List Char) :=
  match readDigits cs with
  | none => none
  | some (whole, rest) =>
    let (fraction, rest) := readFraction rest
    let (exponent, rest) := readExponent rest
    some (⟨negative, whole, fraction, exponent⟩, rest)

def read? (cs : List Char) : Option (Numeral × List Char) :=
  let (negative, body) := readMinus cs
  readUnsigned negative body

def isInteger (n : Numeral) : Bool := n.fraction.isNone && n.exponent.isNone

def toInt (n : Numeral) : Int := signedValue n.negative n.whole

def toInt64? (n : Numeral) : Option Int64 :=
  if Int64.minValue.toInt ≤ n.toInt ∧ n.toInt ≤ Int64.maxValue.toInt then
    some (Int64.ofInt n.toInt)
  else none

/-- The double-precision number nearest to the numeral's value. -/
def toBinary64 (n : Numeral) : Binary64 :=
  let fraction := n.fraction.getD []
  Binary64.ofDecimal n.negative (Nat.ofDigitChars 10 (n.whole ++ fraction) 0)
    (n.exponent.getD 0 - fraction.length)

private theorem readDigits_suffix {cs ds rest : List Char} (h : readDigits cs = some (ds, rest)) :
    rest <:+ cs := by
  unfold readDigits at h
  split at h
  · cases h
  · cases h; exact List.dropWhile_suffix _

theorem readMinus_suffix (cs : List Char) : (readMinus cs).2 <:+ cs := by
  unfold readMinus
  split
  · exact List.suffix_cons _ _
  · exact List.suffix_rfl

private theorem readSign_suffix (cs : List Char) : (readSign cs).2 <:+ cs := by
  unfold readSign
  split
  · exact List.suffix_cons _ _
  · exact readMinus_suffix cs

private theorem readFraction_suffix (cs : List Char) : (readFraction cs).2 <:+ cs := by
  unfold readFraction
  split
  · split
    · next h => exact (readDigits_suffix h).trans (List.suffix_cons _ _)
    · exact List.suffix_rfl
  · exact List.suffix_rfl

private theorem readExponent_suffix (cs : List Char) : (readExponent cs).2 <:+ cs := by
  unfold readExponent
  split
  · exact List.suffix_rfl
  · next c cs =>
    split
    · dsimp only
      split
      · next h =>
        exact ((readDigits_suffix h).trans (readSign_suffix cs)).trans (List.suffix_cons _ _)
      · exact List.suffix_rfl
    · exact List.suffix_rfl

theorem readUnsigned_suffix {negative : Bool} {cs rest : List Char} {n : Numeral}
    (h : readUnsigned negative cs = some (n, rest)) : rest <:+ cs := by
  unfold readUnsigned at h
  split at h
  · cases h
  · next whole tail hw =>
    cases h
    exact ((readExponent_suffix _).trans (readFraction_suffix tail)).trans (readDigits_suffix hw)

end Numeral
end DecisionRules
