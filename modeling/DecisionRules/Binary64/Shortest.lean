import DecisionRules.Numeral

/-! The text of a double-precision number: the fewest digits that read back as the
number, of those the nearest to it, an exact tie going to the greater magnitude. -/
namespace DecisionRules.Binary64

structure Digits where
  first : Char
  others : List Char
  exponent : Int

namespace Digits

/-- The digits of `coefficient * 10 ^ exponent` without the zeros at the end. -/
def ofDecimal (coefficient : Nat) (exponent : Int) : Digits :=
  let ds := Nat.toDigits 10 coefficient
  ⟨ds.headD '0', (ds.tail.reverse.dropWhile (· == '0')).reverse,
    exponent + (ds.length - 1 : Nat)⟩

/-- The layout of digits as a numeral that stands for no integer: positional with a
fraction while the first digit's power of ten is from -4 to 15, with an exponent
outside that range. -/
def layout (negative : Bool) (d : Digits) : Numeral :=
  let ds := d.first :: d.others
  if -4 ≤ d.exponent ∧ d.exponent < 0 then
    ⟨negative, ['0'], some (List.replicate (-d.exponent - 1).toNat '0' ++ ds), none⟩
  else if 0 ≤ d.exponent ∧ d.exponent < 16 then
    let before := (d.exponent + 1).toNat
    let whole := ds.take before ++ List.replicate (before - ds.length) '0'
    ⟨negative, whole, some (if ds.length ≤ before then ['0'] else ds.drop before), none⟩
  else
    ⟨negative, [d.first], if d.others.isEmpty then none else some d.others, some d.exponent⟩

end Digits

def floorLog10 (a b : Nat) : Int :=
  let k : Int := ((Nat.toDigits 10 a).length : Int) - (Nat.toDigits 10 b).length
  if b * Nat.pow 10 k.toNat ≤ a * Nat.pow 10 (-k).toNat then k else k - 1

/-- The numeral of the grid point nearest to the magnitude `a / b` among those that
read back as `x`, on the grid of multiples of `10 ^ unit`. -/
def gridNumeral? (x : Binary64) (negative : Bool) (a b : Nat) (unit : Int) : Option Numeral :=
  let num := a * Nat.pow 10 (-unit).toNat
  let den := b * Nat.pow 10 unit.toNat
  let below := (Digits.ofDecimal (num / den) unit).layout negative
  let above := (Digits.ofDecimal (num / den + 1) unit).layout negative
  let nearer := if 2 * (num % den) < den then [below, above] else [above, below]
  nearer.find? fun n => n.toBinary64 = x

/-- All digits of `significand * 2 ^ scale`, a decimal because ten is even. -/
def exactNumeral (negative : Bool) (significand : Nat) (scale : Int) : Numeral :=
  ⟨negative, Nat.toDigits 10 (significand <<< scale.toNat * Nat.pow 5 (-scale).toNat), none,
    some (min scale 0)⟩

/-- The numeral for the finite number of the given sign at the given place. Seventeen
digits are enough to tell all numbers apart. -/
def finiteNumeral (negative : Bool) (place : Nat) : Numeral :=
  if place = 0 then ⟨negative, ['0'], some ['0'], none⟩
  else
    let x := ofPlace negative place
    let m := significand place
    let e := scale place
    let a := m <<< e.toNat
    let b := 1 <<< (-e).toNat
    let k := floorLog10 a b
    ((List.range 17).findSome? fun more : Nat => gridNumeral? x negative a b (k - more)).getD
      (exactNumeral negative m e)

def text : Binary64 → List Char
  | .nan => "NaN".toList
  | .infinity negative => (if negative then "-inf" else "inf").toList
  | .finite negative place _ => (finiteNumeral negative place).render

end DecisionRules.Binary64
