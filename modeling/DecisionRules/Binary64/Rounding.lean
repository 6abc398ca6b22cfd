import DecisionRules.Binary64.Basic

/-! Rounding of exact quotients and decimals to the nearest double-precision
number, a half going to the even neighbour. -/
namespace DecisionRules.Binary64

/-- The natural number nearest to `a / b`; of two equally near, the even one. -/
def roundHalfEven (a b : Nat) : Nat :=
  let q := a / b
  let r := a % b
  if 2 * r < b ∨ 2 * r = b ∧ q % 2 = 0 then q else q + 1

/-- The greatest `k` with `2 ^ k ≤ a / b`, for positive `a` and `b`. -/
def floorLog2 (a b : Nat) : Int :=
  let k : Int := (a.log2 : Int) - b.log2
  if b <<< k.toNat ≤ a <<< (-k).toNat then k else k - 1

/-- The place of the magnitude nearest to the positive quotient `a / b`. A carry
out of the significand moves into the next binade by itself. -/
def placeOfRatio (a b : Nat) : Nat :=
  let e := max (-1074) (floorLog2 a b - 52)
  (e + 1074).toNat * binade + roundHalfEven (a <<< (-e).toNat) (b <<< e.toNat)

def ofRatio (negative : Bool) (a b : Nat) : Binary64 :=
  ofPlace negative (if a = 0 then 0 else placeOfRatio a b)

/-- The number nearest to `coefficient * 10 ^ exponent` with the given sign. Where the
magnitude is bound to overflow or to vanish, no power is formed: every multiple of
`10 ^ 400` is past the last finite magnitude, and since ten is more than two to the
third, the bits of the coefficient and the exponent bound the magnitude from above. -/
def ofDecimal (negative : Bool) (coefficient : Nat) (exponent : Int) : Binary64 :=
  if coefficient = 0 then ofPlace negative 0
  else if 400 ≤ exponent then .infinity negative
  else if (coefficient.log2 : Int) + 3 * exponent < -1100 then ofPlace negative 0
  else ofRatio negative (coefficient * Nat.pow 10 exponent.toNat) (Nat.pow 10 (-exponent).toNat)

def ofInt (n : Int) : Binary64 := ofRatio (decide (n < 0)) n.natAbs 1

end DecisionRules.Binary64
