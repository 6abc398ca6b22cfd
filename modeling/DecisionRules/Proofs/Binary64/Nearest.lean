import DecisionRules.Binary64.Rounding
import DecisionRules.Proofs.Binary64.Magnitude
import Mathlib.Tactic.FieldSimp
import Mathlib.Tactic.GCongr

/-! Quotients and decimals are rounded to the nearest number. The logarithm of a quotient tells its
scale; the quotient over the scale is rounded to a natural number, which is the significand, or
the next power of two where rounding carries. -/
namespace DecisionRules.Binary64

/-- A power with an integer exponent, by powers with natural ones. -/
theorem pow_toNat_div_pow_toNat {r : ℚ} (hr : r ≠ 0) (e : ℤ) :
    r ^ e.toNat / r ^ (-e).toNat = r ^ e := by
  rw [← zpow_natCast, ← zpow_natCast, ← zpow_sub₀ hr]
  congr 1
  omega

/-- A natural number at most one half away from `t`, and an even one if it is one half. -/
structure HalfEven (t : ℚ) (m : Nat) : Prop where
  low : (m : ℚ) - 1 / 2 < t ∨ (m : ℚ) - 1 / 2 = t ∧ Even m
  high : t < m + 1 / 2 ∨ t = m + 1 / 2 ∧ Even m

section Rounding

variable {t : ℚ} {a b m n : Nat}

theorem HalfEven.le (h : HalfEven t m) (ht : t < n) : m ≤ n := by
  by_contra hlt
  have hm : ((n + 1 : Nat) : ℚ) ≤ m := Nat.cast_le.mpr (Nat.lt_of_not_le hlt)
  push_cast at hm
  rcases h.low with hlow | ⟨hlow, -⟩ <;> linarith

theorem HalfEven.ge (h : HalfEven t m) (ht : n ≤ t) : n ≤ m := by
  by_contra hlt
  have hm : ((m + 1 : Nat) : ℚ) ≤ n := Nat.cast_le.mpr (Nat.lt_of_not_le hlt)
  push_cast at hm
  rcases h.high with hhigh | ⟨hhigh, -⟩ <;> linarith

private theorem roundHalfEven_bounds (hb : 0 < b) :
    (2 * (roundHalfEven a b * b) < 2 * a + b ∨
        2 * (roundHalfEven a b * b) = 2 * a + b ∧ Even (roundHalfEven a b)) ∧
      (2 * a < 2 * (roundHalfEven a b * b) + b ∨
        2 * a = 2 * (roundHalfEven a b * b) + b ∧ Even (roundHalfEven a b)) := by
  have hdiv := Nat.div_add_mod a b
  have hmod := Nat.mod_lt a hb
  unfold roundHalfEven
  dsimp only
  generalize a / b = q at *
  generalize a % b = r at *
  subst hdiv
  simp only [Nat.even_iff]
  split <;> simp only [Nat.add_mul, Nat.mul_comm b q] <;> omega

theorem halfEven_roundHalfEven (hb : 0 < b) : HalfEven (a / b) (roundHalfEven a b) := by
  have hbq : (0 : ℚ) < b := by exact_mod_cast hb
  obtain ⟨hlow, hhigh⟩ := roundHalfEven_bounds (a := a) hb
  generalize roundHalfEven a b = m at *
  constructor
  · rw [lt_div_iff₀ hbq, eq_div_iff hbq.ne']
    refine hlow.imp (fun h => ?_) (And.imp_left fun h => ?_)
    · have hq : (2 * (m * b) : ℚ) < 2 * a + b := by exact_mod_cast h
      linarith
    · have hq : (2 * (m * b) : ℚ) = 2 * a + b := by exact_mod_cast h
      linarith
  · rw [div_lt_iff₀ hbq, div_eq_iff hbq.ne']
    refine hhigh.imp (fun h => ?_) (And.imp_left fun h => ?_)
    · have hq : (2 * a : ℚ) < 2 * (m * b) + b := by exact_mod_cast h
      linarith
    · have hq : (2 * a : ℚ) = 2 * (m * b) + b := by exact_mod_cast h
      linarith

/-- A quotient over a power of two, in natural numbers. -/
private theorem shifted_quotient (a b : Nat) (e : ℤ) :
    ((a <<< (-e).toNat : Nat) : ℚ) / (b <<< e.toNat : Nat) = a / b / 2 ^ e := by
  rw [Nat.shiftLeft_eq, Nat.shiftLeft_eq, ← pow_toNat_div_pow_toNat two_ne_zero, div_div_div_eq]
  push_cast
  rfl

private theorem shift_le_shift_iff (hb : 0 < b) (e : ℤ) :
    b <<< e.toNat ≤ a <<< (-e).toNat ↔ (2 : ℚ) ^ e ≤ a / b := by
  have hshift : (0 : ℚ) < (b <<< e.toNat : Nat) := by
    rw [Nat.shiftLeft_eq]
    positivity
  rw [← one_le_div₀ (b := (2 : ℚ) ^ e) (by positivity), ← shifted_quotient, one_le_div₀ hshift,
    Nat.cast_le]

theorem floorLog2_bounds (ha : 0 < a) (hb : 0 < b) :
    (2 : ℚ) ^ floorLog2 a b ≤ a / b ∧ (a / b : ℚ) < 2 ^ (floorLog2 a b + 1) := by
  have hbq : (0 : ℚ) < b := by exact_mod_cast hb
  have halow : ((2 ^ a.log2 : Nat) : ℚ) ≤ a := by exact_mod_cast Nat.log2_self_le ha.ne'
  have hahigh : (a : ℚ) < (2 ^ (a.log2 + 1) : Nat) := by exact_mod_cast Nat.lt_log2_self
  have hblow : ((2 ^ b.log2 : Nat) : ℚ) ≤ b := by exact_mod_cast Nat.log2_self_le hb.ne'
  have hbhigh : (b : ℚ) < (2 ^ (b.log2 + 1) : Nat) := by exact_mod_cast Nat.lt_log2_self
  push_cast at halow hahigh hblow hbhigh
  simp only [← zpow_natCast] at halow hahigh hblow hbhigh
  have hlow : (2 : ℚ) ^ ((a.log2 : ℤ) - b.log2 - 1) ≤ a / b := by
    rw [le_div_iff₀ hbq]
    calc (2 : ℚ) ^ ((a.log2 : ℤ) - b.log2 - 1) * b
        ≤ 2 ^ ((a.log2 : ℤ) - b.log2 - 1) * 2 ^ ((b.log2 + 1 : Nat) : ℤ) := by gcongr
      _ = 2 ^ (a.log2 : ℤ) := by
        rw [← zpow_add₀ two_ne_zero]
        congr 1
        push_cast
        ring
      _ ≤ a := halow
  have hhigh : (a / b : ℚ) < 2 ^ ((a.log2 : ℤ) - b.log2 + 1) := by
    rw [div_lt_iff₀ hbq]
    calc (a : ℚ) < 2 ^ ((a.log2 + 1 : Nat) : ℤ) := hahigh
      _ = 2 ^ ((a.log2 : ℤ) - b.log2 + 1) * 2 ^ (b.log2 : ℤ) := by
        rw [← zpow_add₀ two_ne_zero]
        congr 1
        push_cast
        ring
      _ ≤ 2 ^ ((a.log2 : ℤ) - b.log2 + 1) * b := by gcongr
  unfold floorLog2
  dsimp only
  split
  · next h => exact ⟨(shift_le_shift_iff hb _).mp h, hhigh⟩
  · next h =>
    rw [shift_le_shift_iff hb, not_le] at h
    exact ⟨hlow, by rwa [sub_add_cancel]⟩

end Rounding

section Place

variable {q : ℚ} {a b j m : Nat}

/-- At the scale of its binade a magnitude is rounded to a place by its significand. One that is
rounded up to the next binade has the places there behind it, one at the lowest place of a binade
is not rounded up. -/
private theorem preferred_of_halfEven (hm : m ≤ 2 * binade) (hj : j = 0 ∨ binade ≤ m)
    (hnormal : j = 0 ∨ binade * 2 ^ ((j : ℤ) - 1074) ≤ q)
    (hround : HalfEven (q / 2 ^ ((j : ℤ) - 1074)) m) :
    ∀ other ≠ j * binade + m, Preferred q (j * binade + m) other := by
  have hu : (0 : ℚ) < 2 ^ ((j : ℤ) - 1074) := by positivity
  have hplace := magnitude_add hm hj
  have heven : Even (j * binade + m) ↔ Even m := by
    simp only [Nat.even_iff, binade]
    omega
  obtain ⟨hlow, hhigh⟩ := hround
  rw [lt_div_iff₀ hu, eq_div_iff hu.ne'] at hlow
  rw [div_lt_iff₀ hu, div_eq_iff hu.ne'] at hhigh
  intro other hne
  rcases Nat.lt_or_gt_of_ne hne with hlt | hgt
  · rw [preferred_iff_of_gt hlt, heven]
    by_cases hfirst : j = 0 ∨ binade < m
    · have hpos : 0 < m := by
        rcases hfirst with rfl | h
        · omega
        · exact Nat.zero_lt_of_lt h
      have hpred : magnitude (j * binade + (m - 1)) = (m - 1 : Nat) * 2 ^ ((j : ℤ) - 1074) :=
        magnitude_add (by omega) (by omega)
      rw [Nat.cast_pred (by omega)] at hpred
      have hle : magnitude other ≤ magnitude (j * binade + (m - 1)) :=
        magnitude_strictMono.monotone (by omega)
      rcases hlow with hlow | ⟨hlow, hm⟩
      · exact .inl (by linarith)
      · rcases hle.lt_or_eq with hle | hle
        · exact .inl (by linarith)
        · exact .inr ⟨by linarith, hm⟩
    · obtain rfl : m = binade := by omega
      have hq := hnormal.resolve_left (by omega)
      have hlt := magnitude_strictMono hlt
      exact .inl (by linarith)
  · rw [preferred_iff_of_lt hgt, heven]
    have hscale : (j : ℤ) - 1074 ≤ scale (j * binade + m) := by
      simp only [scale, binade] at *
      split <;> omega
    have hstep := zpow_le_zpow_right₀ (one_le_two (α := ℚ)) hscale
    have hle : magnitude (j * binade + m + 1) ≤ magnitude other :=
      magnitude_strictMono.monotone hgt
    rw [magnitude_succ] at hle
    rcases hhigh with hhigh | ⟨hhigh, hm⟩
    · exact .inl (by linarith)
    · rcases (hle.trans' (add_le_add_right hstep _)).lt_or_eq with hle | hle
      · exact .inl (by linarith)
      · exact .inr ⟨by linarith, hm⟩

theorem preferred_placeOfRatio (ha : 0 < a) (hb : 0 < b) :
    ∀ other ≠ placeOfRatio a b, Preferred (a / b) (placeOfRatio a b) other := by
  obtain ⟨hlow, hhigh⟩ := floorLog2_bounds ha hb
  unfold placeOfRatio
  dsimp only
  generalize he : max (-1074) (floorLog2 a b - 52) = e
  have hu : (0 : ℚ) < 2 ^ e := by positivity
  have hj : ((e + 1074).toNat : ℤ) - 1074 = e := by omega
  have hshift : 0 < b <<< e.toNat := by
    rw [Nat.shiftLeft_eq]
    positivity
  have hround : HalfEven (a / b / 2 ^ e) (roundHalfEven (a <<< (-e).toNat) (b <<< e.toNat)) := by
    rw [← shifted_quotient]
    exact halfEven_roundHalfEven hshift
  generalize roundHalfEven (a <<< (-e).toNat) (b <<< e.toNat) = m at *
  have hbelow : (a / b : ℚ) / 2 ^ e < (2 * binade : Nat) := by
    have hbinade : ((2 * binade : Nat) : ℚ) = 2 ^ (53 : ℤ) := by norm_num
    rw [div_lt_iff₀ hu, hbinade, ← zpow_add₀ two_ne_zero]
    exact hhigh.trans_le (zpow_le_zpow_right₀ one_le_two (by omega))
  have habove : (e + 1074).toNat = 0 ∨ (binade : ℚ) ≤ a / b / 2 ^ e := by
    by_cases hmin : e = -1074
    · exact .inl (by omega)
    · have hbinade : (binade : ℚ) = 2 ^ (52 : ℤ) := by norm_num
      rw [le_div_iff₀ hu, hbinade, ← zpow_add₀ two_ne_zero]
      exact .inr (hlow.trans' (zpow_le_zpow_right₀ one_le_two (by omega)))
  refine preferred_of_halfEven (hround.le hbelow) (habove.imp_right hround.ge) ?_ ?_
  · rw [hj]
    exact habove.imp_right (le_div_iff₀ hu).mp
  · rwa [hj]

end Place

/-- A quotient is rounded to the number nearest to it. -/
theorem rounds_ofRatio (negative : Bool) (a : Nat) {b : Nat} (hb : 0 < b) :
    Rounds (a / b) negative (ofRatio negative a b) := by
  unfold ofRatio
  split
  · next hz => exact rounds_zero negative (by simp [hz])
  · next hne => exact rounds_ofPlace (preferred_placeOfRatio (Nat.pos_of_ne_zero hne) hb)

/-- A multiple of a large power of ten is past the last finite magnitude. -/
private theorem overflowBound_le {c : Nat} {x : ℤ} (hc : c ≠ 0) (hx : 400 ≤ x) :
    overflowBound ≤ c * 10 ^ x := by
  have hone : (1 : ℚ) ≤ c := by exact_mod_cast Nat.one_le_iff_ne_zero.mpr hc
  calc overflowBound ≤ 2 ^ (1200 : ℤ) := by
        refine (sub_le_self _ (by positivity)).trans ?_
        rw [← zpow_natCast]
        exact zpow_le_zpow_right₀ one_le_two (by decide)
    _ = 8 ^ (400 : ℤ) := by
        rw [show (8 : ℚ) = 2 ^ (3 : ℤ) by norm_num, ← zpow_mul]
        rfl
    _ ≤ 10 ^ (400 : ℤ) := zpow_le_zpow_left₀ (by decide) (by norm_num) (by norm_num)
    _ ≤ 10 ^ x := zpow_le_zpow_right₀ (by norm_num) hx
    _ ≤ c * 10 ^ x := le_mul_of_one_le_left (by positivity) hone

/-- Ten is more than two to the third. -/
private theorem decimal_lt {c : Nat} {x : ℤ} (hx : x ≤ 0) :
    (c : ℚ) * 10 ^ x < 2 ^ ((c.log2 : ℤ) + 1 + 3 * x) := by
  have hc : (c : ℚ) < 2 ^ ((c.log2 : ℤ) + 1) := by
    have hlog : (c : ℚ) < (2 ^ (c.log2 + 1) : Nat) := by exact_mod_cast Nat.lt_log2_self
    push_cast at hlog
    exact_mod_cast hlog
  have hten : (10 : ℚ) ^ x ≤ 2 ^ (3 * x) := by
    rw [zpow_mul, ← inv_le_inv₀ (by positivity) (by positivity), ← zpow_neg, ← zpow_neg]
    exact zpow_le_zpow_left₀ (by omega) (by norm_num) (by norm_num)
  rw [zpow_add₀ two_ne_zero]
  calc (c : ℚ) * 10 ^ x < 2 ^ ((c.log2 : ℤ) + 1) * 10 ^ x := by gcongr
    _ ≤ 2 ^ ((c.log2 : ℤ) + 1) * 2 ^ (3 * x) := by gcongr

/-- A decimal is rounded to the number nearest to it. -/
theorem rounds_ofDecimal (negative : Bool) (c : Nat) (x : ℤ) :
    Rounds (c * 10 ^ x) negative (ofDecimal negative c x) := by
  unfold ofDecimal
  split
  · next hz => exact rounds_zero negative (by simp [hz])
  next hc =>
  split
  · next hx => exact .infinite (overflowBound_le hc hx)
  split
  · next hsmall =>
    refine rounds_zero negative ?_
    have hlt : (c : ℚ) * 10 ^ x < 2 ^ (-1075 : ℤ) :=
      (decimal_lt (by omega)).trans_le (zpow_le_zpow_right₀ one_le_two (by omega))
    have htwo : (2 : ℚ) ^ (-1074 : ℤ) = 2 * 2 ^ (-1075 : ℤ) := by
      rw [← zpow_one_add₀ two_ne_zero]
      rfl
    rw [htwo]
    exact mul_lt_mul_of_pos_left hlt two_pos
  · have hquotient : (c : ℚ) * 10 ^ x =
        ((c * Nat.pow 10 x.toNat : Nat) : ℚ) / (Nat.pow 10 (-x).toNat : Nat) := by
      rw [← pow_toNat_div_pow_toNat (by norm_num), ← mul_div_assoc]
      simp only [Nat.pow_eq]
      push_cast
      rfl
    rw [hquotient]
    exact rounds_ofRatio negative _ (Nat.pow_pos (by decide))

/-- Integers of fewer than 1024 bits round to finite numbers. -/
theorem isFinite_ofInt {n : Int} (h : n.natAbs.log2 < 1023) : (ofInt n).isFinite = true := by
  refine (rounds_ofRatio (decide (n < 0)) n.natAbs Nat.one_pos).isFinite ?_
  have hlog : (n.natAbs : ℚ) < 2 ^ (n.natAbs.log2 + 1) := by exact_mod_cast Nat.lt_log2_self
  have hhalf : (2 : ℚ) ^ 1023 ≤ overflowBound := by
    rw [overflowBound, le_sub_iff_add_le, pow_succ' 2 1023, two_mul]
    exact add_le_add_right (pow_le_pow_right₀ one_le_two (by decide)) _
  rw [Nat.cast_one, div_one]
  exact hlog.trans_le ((pow_le_pow_right₀ one_le_two h).trans hhalf)

end DecisionRules.Binary64
