import DecisionRules.Binary64.Basic
import Mathlib.Algebra.Order.Field.Power
import Mathlib.Tactic.Linarith
import Mathlib.Tactic.NormNum
import Mathlib.Tactic.Positivity
import Mathlib.Tactic.Ring

/-! Finite numbers as rational numbers, and what it means to round a rational number to one of
them: no finite number is nearer, of two that are equally near the one with the even significand
is taken, and from halfway between the last finite magnitude and the next power of two on the
number is infinite. Nothing here depends on how rounding is done. -/
namespace DecisionRules.Binary64

/-- The magnitude at a place. Places past the last go on in the same way. -/
def magnitude (place : Nat) : ℚ := significand place * 2 ^ scale place

/-- Halfway between the last finite magnitude and the next power of two. -/
def overflowBound : ℚ := 2 ^ 1024 - 2 ^ 970

def Preferred (q : ℚ) (place other : Nat) : Prop :=
  |magnitude place - q| < |magnitude other - q| ∨
    |magnitude place - q| = |magnitude other - q| ∧ Even (significand place)

/-- What a magnitude `q` is rounded to under the given sign. -/
inductive Rounds (q : ℚ) (negative : Bool) : Binary64 → Prop
  | finite {place : Nat} (h : place < placeLimit) : q < overflowBound →
      (∀ other < placeLimit, other ≠ place → Preferred q place other) →
      Rounds q negative (.finite negative place h)
  | infinite : overflowBound ≤ q → Rounds q negative (.infinity negative)

section Order

/-- Between a binade and the next but one the significand counts places. -/
theorem magnitude_add {j m : Nat} (hm : m ≤ 2 * binade) (hj : j = 0 ∨ binade ≤ m) :
    magnitude (j * binade + m) = m * 2 ^ ((j : ℤ) - 1074) := by
  rcases Nat.lt_or_ge m binade with hlow | hlow
  · obtain rfl : j = 0 := hj.resolve_right (Nat.not_le.mpr hlow)
    simp [magnitude, significand, scale, hlow]
  rcases Nat.lt_or_ge m (2 * binade) with hhigh | hhigh
  · have hs : significand (j * binade + m) = m := by
      simp only [significand, binade] at *
      split <;> omega
    have he : scale (j * binade + m) = j - 1074 := by
      simp only [scale, binade] at *
      split <;> omega
    rw [magnitude, hs, he]
  · obtain rfl : m = 2 * binade := Nat.le_antisymm hm hhigh
    have hs : significand (j * binade + 2 * binade) = binade := by
      simp only [significand, binade]
      split <;> omega
    have he : scale (j * binade + 2 * binade) = j - 1074 + 1 := by
      simp only [scale, binade]
      split <;> omega
    rw [magnitude, hs, he, zpow_add_one₀ two_ne_zero]
    push_cast
    ring

/-- A place is where its own significand and scale lead. -/
private theorem place_eq (place : Nat) :
    (scale place + 1074).toNat * binade + significand place = place := by
  simp only [scale, significand, binade]
  split <;> omega

theorem magnitude_succ (place : Nat) :
    magnitude (place + 1) = magnitude place + 2 ^ scale place := by
  have hm : significand place + 1 ≤ 2 * binade := by
    simp only [significand, binade]
    split <;> omega
  have hj : (scale place + 1074).toNat = 0 ∨ binade ≤ significand place + 1 := by
    simp only [scale, significand, binade]
    split <;> omega
  have he : ((scale place + 1074).toNat : ℤ) - 1074 = scale place := by
    simp only [scale, binade]
    split <;> omega
  have hsucc := magnitude_add hm hj
  rw [← Nat.add_assoc, place_eq, he] at hsucc
  rw [hsucc, magnitude]
  push_cast
  ring

theorem magnitude_strictMono : StrictMono magnitude :=
  strictMono_nat_of_lt_succ fun place => by
    rw [magnitude_succ]
    exact lt_add_of_pos_right _ (by positivity)

end Order

section Preferred

variable {q : ℚ} {place other : Nat} {negative : Bool} {x y : Binary64}

private theorem even_significand_iff : Even (significand place) ↔ Even place := by
  simp only [Nat.even_iff, significand, binade]
  split <;> omega

/-- Of two numbers the lesser is nearer to all that is below halfway between them. -/
private theorem abs_sub_lt_iff {a b : ℚ} (h : a < b) :
    (|a - q| < |b - q| ↔ 2 * q < a + b) ∧ (|b - q| < |a - q| ↔ a + b < 2 * q) := by
  have hfactor : (b - q) ^ 2 - (a - q) ^ 2 = (b - a) * (a + b - 2 * q) := by ring
  have hpos : 0 < b - a := sub_pos.mpr h
  constructor
  · rw [← sq_lt_sq, ← sub_pos, hfactor, mul_pos_iff_of_pos_left hpos, sub_pos]
  · rw [← sq_lt_sq, ← sub_neg, hfactor, ← not_le, mul_nonneg_iff_of_pos_left hpos, not_le, sub_neg]

private theorem abs_sub_eq_iff {a b : ℚ} (h : a < b) : |a - q| = |b - q| ↔ a + b = 2 * q := by
  rw [abs_eq_abs]
  constructor
  · rintro (heq | heq) <;> linarith
  · intro hq
    exact .inr (by linarith)

theorem preferred_iff_of_lt (h : place < other) : Preferred q place other ↔
    2 * q < magnitude place + magnitude other ∨
      magnitude place + magnitude other = 2 * q ∧ Even place := by
  have hlt := magnitude_strictMono h
  rw [Preferred, (abs_sub_lt_iff hlt).1, abs_sub_eq_iff hlt, even_significand_iff]

theorem preferred_iff_of_gt (h : other < place) : Preferred q place other ↔
    magnitude other + magnitude place < 2 * q ∨
      magnitude other + magnitude place = 2 * q ∧ Even place := by
  have hlt := magnitude_strictMono h
  rw [Preferred, (abs_sub_lt_iff hlt).2, eq_comm (a := |_ - q|), abs_sub_eq_iff hlt,
    even_significand_iff]

theorem Preferred.le (h : Preferred q place other) (hlt : place < other) :
    2 * q ≤ magnitude place + magnitude other := by
  rcases (preferred_iff_of_lt hlt).mp h with h | h
  · exact h.le
  · exact h.1.ge

theorem Preferred.ge (h : Preferred q place other) (hlt : other < place) :
    magnitude other + magnitude place ≤ 2 * q := by
  rcases (preferred_iff_of_gt hlt).mp h with h | h
  · exact h.le
  · exact h.1.le

/-- Two places cannot both be preferred: between two even ones there is another. -/
theorem eq_of_preferred {limit : Nat} (hplace : place < limit) (hother : other < limit)
    (h : ∀ p < limit, p ≠ place → Preferred q place p)
    (h' : ∀ p < limit, p ≠ other → Preferred q other p) : place = other := by
  have hnot : ∀ {a b : Nat}, a < b → b < limit → (∀ p < limit, p ≠ a → Preferred q a p) →
      (∀ p < limit, p ≠ b → Preferred q b p) → False := by
    intro a b hab hb ha hb'
    have hle := (ha b hb hab.ne').le hab
    have hba := hb' a (hab.trans hb) hab.ne
    rcases (preferred_iff_of_gt hab).mp hba with hlt | ⟨heq, hevenb⟩
    · linarith
    rcases (preferred_iff_of_lt hab).mp (ha b hb hab.ne') with hlt | ⟨-, hevena⟩
    · linarith
    have hnext : a + 1 < b := by
      rw [Nat.even_iff] at hevena hevenb
      omega
    have hnear := (ha (a + 1) (hnext.trans hb) (by omega)).le (Nat.lt_succ_self a)
    have hfar := magnitude_strictMono hnext
    linarith
  rcases Nat.lt_trichotomy place other with hlt | heq | hgt
  · exact (hnot hlt hother h h').elim
  · exact heq
  · exact (hnot hgt hplace h' h).elim

/-- A magnitude is rounded to one number only. -/
theorem Rounds.unique (hx : Rounds q negative x) (hy : Rounds q negative y) : x = y := by
  cases hx with
  | finite hplace hbound hpreferred =>
    cases hy with
    | finite hother _ hpreferred' =>
      obtain rfl := eq_of_preferred hplace hother hpreferred hpreferred'
      rfl
    | infinite hbound' => exact absurd hbound (not_lt.mpr hbound')
  | infinite hbound =>
    cases hy with
    | finite _ hbound' => exact absurd hbound' (not_lt.mpr hbound)
    | infinite => rfl

/-- The last finite place has an odd significand and the one behind it has the magnitude of the
power of two, so that the bound lies halfway between them. -/
private theorem two_mul_overflowBound :
    magnitude (placeLimit - 1) + magnitude placeLimit = 2 * overflowBound := by
  have hlast := magnitude_add (j := 2045) (m := 2 * binade - 1) (by decide) (by decide)
  have hnext := magnitude_add (j := 2045) (m := 2 * binade) (by decide) (by decide)
  have hlimit : 2045 * binade + 2 * binade = placeLimit := rfl
  have hbefore : 2045 * binade + (2 * binade - 1) = placeLimit - 1 := rfl
  rw [hbefore] at hlast
  rw [hlimit] at hnext
  have hscale : (2 : ℚ) ^ ((2045 : Nat) - 1074 : ℤ) = 2 * 2 ^ 970 := by
    rw [← pow_succ']
    rfl
  have hpower : (2 : ℚ) ^ 1024 = 2 ^ 54 * 2 ^ 970 := by rw [← pow_add]
  rw [hlast, hnext, overflowBound, hscale, hpower]
  generalize (2 : ℚ) ^ 970 = unit
  norm_num
  ring

/-- The number at a place is what a magnitude is rounded to if no place at all is preferred, the
places past the last included. -/
theorem rounds_ofPlace (h : ∀ other ≠ place, Preferred q place other) :
    Rounds q negative (ofPlace negative place) := by
  have htwo := two_mul_overflowBound
  have hlast : placeLimit - 1 < placeLimit := by decide
  rcases Nat.lt_or_ge place placeLimit with hplace | hplace
  · rw [ofPlace_of_lt _ hplace]
    refine .finite hplace ?_ fun other _ hne => h other hne
    rcases (preferred_iff_of_lt hplace).mp (h placeLimit hplace.ne') with hlt | ⟨heq, heven⟩
    · have hle := magnitude_strictMono.monotone (Nat.le_sub_one_of_lt hplace)
      linarith
    · have hne : place ≠ placeLimit - 1 := by
        rintro rfl
        exact absurd heven (by decide)
      have hlt := magnitude_strictMono (show place < placeLimit - 1 by omega)
      linarith
  · rw [ofPlace, dif_neg (Nat.not_lt.mpr hplace)]
    have hge := (h (placeLimit - 1) (by omega)).ge (hlast.trans_le hplace)
    have hle := magnitude_strictMono.monotone hplace
    exact .infinite (by linarith)

/-- The bound is greater than every finite magnitude. -/
theorem magnitude_lt_overflowBound (h : place < placeLimit) : magnitude place < overflowBound := by
  have htwo := two_mul_overflowBound
  have hlast := magnitude_strictMono (show placeLimit - 1 < placeLimit by decide)
  have hle := magnitude_strictMono.monotone (Nat.le_sub_one_of_lt h)
  linarith

/-- The magnitude of a finite number is not changed by rounding. -/
theorem rounds_magnitude (negative : Bool) (h : place < placeLimit) :
    Rounds (magnitude place) negative (.finite negative place h) := by
  refine .finite h (magnitude_lt_overflowBound h) fun other _ hne => .inl ?_
  rw [sub_self, abs_zero, abs_pos, sub_ne_zero]
  exact magnitude_strictMono.injective.ne hne

theorem Rounds.isFinite (h : Rounds q negative x) (hq : q < overflowBound) : x.isFinite = true := by
  cases h with
  | finite => rfl
  | infinite hbound => exact absurd hq (not_lt.mpr hbound)

/-- A magnitude of less than half of the least one vanishes. -/
theorem rounds_zero (negative : Bool) (h : 2 * q < 2 ^ (-1074 : ℤ)) :
    Rounds q negative (ofPlace negative 0) := by
  refine rounds_ofPlace fun other hne => (preferred_iff_of_lt (Nat.pos_of_ne_zero hne)).mpr (.inl ?_)
  have hzero : magnitude 0 = 0 := by simp [magnitude, significand, scale]
  have hone : magnitude 1 = 2 ^ (-1074 : ℤ) := by simp [magnitude, significand, scale]
  have hle : magnitude 1 ≤ magnitude other :=
    magnitude_strictMono.monotone (Nat.one_le_iff_ne_zero.mpr hne)
  linarith

end Preferred

end DecisionRules.Binary64
