import DecisionRules.Binary64.Shortest
import DecisionRules.Proofs.Numeral.Magnitude
import DecisionRules.Proofs.Numeral.Written

/-! The text of a finite number is a numeral with a fraction or an exponent, and it reads
back as the number. Short texts are chosen so; where none is found all digits are written, and
those stand for the magnitude itself. -/
namespace DecisionRules.Binary64

open Numeral (IsDigits WellFormed isDigits_toDigits)

structure Prints (n : Numeral) (x : Binary64) : Prop where
  wellFormed : n.WellFormed
  not_isInteger : n.isInteger = false
  toBinary64 : n.toBinary64 = x

private theorem isDigits_replicate_append (k : Nat) {ds : List Char} (h : IsDigits ds) :
    IsDigits (List.replicate k '0' ++ ds) := by
  refine ⟨by simp [h.ne_nil], fun c hc => ?_⟩
  rcases List.mem_append.mp hc with hc | hc
  · rw [List.eq_of_mem_replicate hc]
    rfl
  · exact h.isDigit c hc

namespace Digits

/-- The digits without the zeros at the end are digits. -/
private theorem isDigits_ofDecimal (coefficient : Nat) (exponent : Int) :
    IsDigits ((ofDecimal coefficient exponent).first :: (ofDecimal coefficient exponent).others) := by
  have h := (isDigits_toDigits coefficient).isDigit
  refine ⟨by simp, fun c hc => ?_⟩
  simp only [ofDecimal] at hc
  generalize Nat.toDigits 10 coefficient = ds at *
  rcases List.mem_cons.mp hc with rfl | hc
  · cases ds with
    | nil => rfl
    | cons d ds => exact h d (by simp)
  · have hr := List.dropWhile_subset _ (List.mem_reverse.mp hc)
    exact h c (List.mem_of_mem_tail (List.mem_reverse.mp hr))

private theorem wellFormed_layout (negative : Bool) {d : Digits}
    (h : IsDigits (d.first :: d.others)) : (d.layout negative).WellFormed := by
  have hzero : IsDigits ['0'] := ⟨by simp, by simp⟩
  unfold layout
  dsimp only
  split
  · refine ⟨hzero, fun ds hds => ?_⟩
    cases hds
    exact isDigits_replicate_append _ h
  · split
    · next hpos =>
      refine ⟨⟨?_, fun c hc => ?_⟩, fun ds hds => ?_⟩
      · have hbefore : (d.exponent + 1).toNat ≠ 0 := by omega
        simp [hbefore]
      · rcases List.mem_append.mp hc with hc | hc
        · exact h.isDigit c (List.mem_of_mem_take hc)
        · rw [List.eq_of_mem_replicate hc]
          rfl
      · cases hds
        split
        · exact hzero
        · next hlong =>
          refine ⟨fun hnil => hlong (List.drop_eq_nil_iff.mp hnil), fun c hc => ?_⟩
          exact h.isDigit c (List.mem_of_mem_drop hc)
    · refine ⟨⟨by simp, fun c hc => h.isDigit c (by simp_all)⟩, fun ds hds => ?_⟩
      dsimp only at hds
      split at hds
      · cases hds
      · next hne =>
        cases hds
        exact ⟨by simpa using hne, fun c hc => h.isDigit c (by simp [hc])⟩

private theorem isInteger_layout (negative : Bool) (d : Digits) :
    (d.layout negative).isInteger = false := by
  unfold layout Numeral.isInteger
  dsimp only
  split
  · simp
  · split <;> simp

theorem prints_layout {negative : Bool} {coefficient : Nat} {exponent : Int} {x : Binary64}
    (h : ((ofDecimal coefficient exponent).layout negative).toBinary64 = x) :
    Prints ((ofDecimal coefficient exponent).layout negative) x :=
  ⟨wellFormed_layout negative (isDigits_ofDecimal coefficient exponent),
    isInteger_layout negative _, h⟩

end Digits

private theorem exactNumeral_wellFormed (negative : Bool) (m : Nat) (e : Int) :
    (exactNumeral negative m e).WellFormed :=
  ⟨isDigits_toDigits _, by simp [exactNumeral]⟩

/-- All digits of `m * 2 ^ e` stand for it, since ten is twice five. -/
private theorem magnitude_exactNumeral (negative : Bool) (m : Nat) (e : Int) :
    (exactNumeral negative m e).magnitude = m * 2 ^ e := by
  simp only [Numeral.magnitude, exactNumeral, Nat.ofDigitChars_ten_toDigits, Option.getD_none,
    Option.getD_some, Nat.ofDigitChars_nil, Nat.cast_zero, zero_div, add_zero, Nat.shiftLeft_eq,
    Nat.pow_eq]
  push_cast
  have hmin : min e 0 = -((-e).toNat : ℤ) := by omega
  have hten : (10 : ℚ) ^ (-e).toNat = 5 ^ (-e).toNat * 2 ^ (-e).toNat := by
    rw [← mul_pow]
    norm_num
  rw [hmin, zpow_neg, zpow_natCast, hten, ← pow_toNat_div_pow_toNat two_ne_zero]
  field_simp

/-- All digits of a magnitude read back as the magnitude. -/
theorem toBinary64_exactNumeral (negative : Bool) {place : Nat} (h : place < placeLimit) :
    (exactNumeral negative (significand place) (scale place)).toBinary64 =
      .finite negative place h := by
  symm
  rw [Numeral.toBinary64_eq_iff, magnitude_exactNumeral]
  exact rounds_magnitude negative h

/-- A grid point is only taken if it reads back. -/
private theorem prints_of_gridNumeral? {x : Binary64} {negative : Bool} {a b : Nat} {unit : Int}
    {n : Numeral} (h : gridNumeral? x negative a b unit = some n) : Prints n x := by
  unfold gridNumeral? at h
  dsimp only at h
  have hread : n.toBinary64 = x := by simpa using List.find?_some h
  have hmem := List.mem_of_find?_eq_some h
  split at hmem <;> simp only [List.mem_cons, List.not_mem_nil, or_false] at hmem
  all_goals
    rcases hmem with rfl | rfl
    · exact Digits.prints_layout hread
    · exact Digits.prints_layout hread

theorem prints_finiteNumeral (negative : Bool) {place : Nat} (h : place < placeLimit) :
    Prints (finiteNumeral negative place) (.finite negative place h) := by
  unfold finiteNumeral
  dsimp only
  split
  · next hz =>
    subst hz
    exact ⟨⟨⟨by simp, by simp⟩, by simp [IsDigits.mk]⟩, rfl, rfl⟩
  · cases hf : (List.range 17).findSome? _ with
    | none =>
      exact ⟨exactNumeral_wellFormed negative _ _, rfl, toBinary64_exactNumeral negative h⟩
    | some n =>
      obtain ⟨_, _, hn⟩ := List.exists_of_findSome?_eq_some hf
      rw [ofPlace_of_lt negative h] at hn
      exact prints_of_gridNumeral? hn

end DecisionRules.Binary64
