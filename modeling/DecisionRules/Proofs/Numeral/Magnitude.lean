import DecisionRules.Numeral
import DecisionRules.Proofs.Binary64.Nearest

/-! Numerals as rational numbers. An integer numeral is read as the integer it stands for and
every other one is rounded, from which it follows that there is one number only for it. -/
namespace DecisionRules.Numeral

/-- What the digits of a numeral and its exponent stand for, without the sign. -/
def magnitude (n : Numeral) : ℚ :=
  (Nat.ofDigitChars 10 n.whole 0
      + Nat.ofDigitChars 10 (n.fraction.getD []) 0 / 10 ^ (n.fraction.getD []).length)
    * 10 ^ n.exponent.getD 0

def toRat (n : Numeral) : ℚ := if n.negative then -n.magnitude else n.magnitude

private theorem toRat_eq_toInt {n : Numeral} (h : n.isInteger = true) : n.toRat = n.toInt := by
  simp only [isInteger, Bool.and_eq_true, Option.isNone_iff_eq_none] at h
  simp only [toRat, magnitude, toInt, signedValue, h, Option.getD_none, Nat.ofDigitChars_nil,
    Nat.cast_zero, zero_div, add_zero, zpow_zero, mul_one]
  split <;> push_cast <;> rfl

/-- The integer that is read is the one the numeral stands for. -/
theorem toInt_eq_iff {n : Numeral} {k : Int} (h : n.isInteger = true) :
    k = n.toInt ↔ (k : ℚ) = n.toRat := by
  rw [toRat_eq_toInt h, Int.cast_inj]

/-- Digits before and behind the point are read as one number and the point is moved. -/
private theorem magnitude_eq (n : Numeral) : n.magnitude =
    Nat.ofDigitChars 10 (n.whole ++ n.fraction.getD []) 0
      * 10 ^ (n.exponent.getD 0 - (n.fraction.getD []).length) := by
  have hdigits : Nat.ofDigitChars 10 (n.whole ++ n.fraction.getD []) 0 =
      10 ^ (n.fraction.getD []).length * Nat.ofDigitChars 10 n.whole 0
        + Nat.ofDigitChars 10 (n.fraction.getD []) 0 := by
    rw [Nat.ofDigitChars_append]
    exact Nat.ofDigitChars_eq_ofDigitChars_zero
  have hten : (10 : ℚ) ≠ 0 := by norm_num
  rw [magnitude, hdigits, zpow_sub₀ hten, zpow_natCast]
  push_cast
  field_simp

/-- The number that is read is the one nearest to what the numeral stands for. -/
theorem rounds_toBinary64 (n : Numeral) : Binary64.Rounds n.magnitude n.negative n.toBinary64 := by
  rw [magnitude_eq]
  exact Binary64.rounds_ofDecimal _ _ _

theorem toBinary64_eq_iff {n : Numeral} {x : Binary64} :
    x = n.toBinary64 ↔ Binary64.Rounds n.magnitude n.negative x := by
  constructor
  · rintro rfl
    exact n.rounds_toBinary64
  · intro h
    exact h.unique n.rounds_toBinary64

end DecisionRules.Numeral
