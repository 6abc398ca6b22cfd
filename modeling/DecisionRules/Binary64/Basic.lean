/-! Double-precision numbers. A finite number is its sign and the place of its
magnitude among all finite magnitudes in increasing order, so that neighbouring
places are neighbouring numbers and every place below the limit is used once. -/
namespace DecisionRules

namespace Binary64

/-- The number of places in a binade, two to the 52nd. -/
abbrev binade : Nat := 0x10000000000000

/-- The number of finite magnitudes: there are 2047 binades. -/
abbrev placeLimit : Nat := 2047 * binade

end Binary64

/-- A number of the binary64 format, all NaNs taken as one. -/
inductive Binary64 where
  | nan
  | infinity (negative : Bool)
  | finite (negative : Bool) (place : Nat) (inRange : place < Binary64.placeLimit)
deriving DecidableEq, Repr

namespace Binary64

/-- Numeric equality: NaN equals nothing and the two zeros are equal. -/
def numEq : Binary64 → Binary64 → Bool
  | .infinity s, .infinity t => s == t
  | .finite s m _, .finite t n _ => m == n && (s == t || m == 0)
  | _, _ => false

instance : BEq Binary64 := ⟨numEq⟩

def isFinite : Binary64 → Bool
  | .finite .. => true
  | _ => false

def isNaN : Binary64 → Bool
  | .nan => true
  | _ => false

def ofPlace (negative : Bool) (place : Nat) : Binary64 :=
  if h : place < placeLimit then .finite negative place h else .infinity negative

/-- The integral significand of the magnitude at a place. The lowest binade is
subnormal; in the others the leading bit is implied. -/
def significand (place : Nat) : Nat :=
  if place < binade then place else binade + place % binade

/-- The power of two that scales the significand of the magnitude at a place. -/
def scale (place : Nat) : Int :=
  if place < binade then -1074 else (place / binade : Nat) - 1075

theorem beq_eq_numEq (x y : Binary64) : (x == y) = numEq x y := rfl

/-- A number equals itself unless it is NaN. -/
theorem beq_self_eq (x : Binary64) : (x == x) = !x.isNaN := by
  cases x <;> simp [beq_eq_numEq, numEq, isNaN]

theorem isNaN_eq_false_of_isFinite {x : Binary64} (h : x.isFinite = true) : x.isNaN = false := by
  cases x <;> simp_all [isFinite, isNaN]

@[simp] theorem ofPlace_of_lt (negative : Bool) {place : Nat} (h : place < placeLimit) :
    ofPlace negative place = .finite negative place h := dif_pos h

end Binary64
end DecisionRules
