import ChunkSelector.Number.Binary64
import Mathlib.Algebra.Order.Field.Power
import Mathlib.Data.Rat.Cast.Order
import Mathlib.Tactic.FieldSimp
import Mathlib.Tactic.Linarith
import Mathlib.Tactic.Positivity
import Mathlib.Tactic.Ring

/-!
# Rounding to a double

`ofRatio` depends on the ratio alone, and a ratio that a finite double has rounds to that double.
-/

namespace ChunkSelector.Binary64

/-! ### Powers of two -/

theorem two_zpow_eq (e : ℤ) : (2 : ℚ) ^ e = 2 ^ e.toNat / 2 ^ (-e).toNat := by
  rw [← zpow_natCast, ← zpow_natCast, ← zpow_sub₀ two_ne_zero]
  congr 1
  omega

/-- A shifted comparison compares the ratio with a power of two. -/
theorem shift_le_iff {num den : ℕ} (positive : 0 < den) (e : ℤ) :
    den <<< e.toNat ≤ num <<< (-e).toNat ↔ (2 : ℚ) ^ e ≤ num / den := by
  have hd : (0 : ℚ) < den := by exact_mod_cast positive
  have hp : (0 : ℚ) < 2 ^ (-e).toNat := by positivity
  rw [two_zpow_eq, div_le_div_iff₀ hp hd, Nat.shiftLeft_eq, Nat.shiftLeft_eq]
  constructor
  · intro h
    have cast : ((den * 2 ^ e.toNat : ℕ) : ℚ) ≤ (num * 2 ^ (-e).toNat : ℕ) := by exact_mod_cast h
    push_cast at cast
    linarith
  · intro h
    have cast : ((den * 2 ^ e.toNat : ℕ) : ℚ) ≤ (num * 2 ^ (-e).toNat : ℕ) := by
      push_cast
      linarith
    exact_mod_cast cast

theorem log2_bounds {n : ℕ} (positive : 0 < n) : (2 : ℚ) ^ (n.log2 : ℤ) ≤ n ∧ (n : ℚ) < 2 ^ ((n.log2 : ℤ) + 1) := by
  constructor
  · have low : 2 ^ n.log2 ≤ n := Nat.log2_self_le (by omega)
    rw [zpow_natCast]
    exact_mod_cast low
  · have high : n < 2 ^ (n.log2 + 1) := Nat.lt_log2_self
    rw [show (n.log2 : ℤ) + 1 = ((n.log2 + 1 : ℕ) : ℤ) by omega, zpow_natCast]
    exact_mod_cast high

theorem floorLog2_spec {num den : ℕ} (hn : 0 < num) (hd : 0 < den) :
    (2 : ℚ) ^ floorLog2 num den ≤ num / den ∧ (num : ℚ) / den < 2 ^ (floorLog2 num den + 1) := by
  obtain ⟨numLow, numHigh⟩ := log2_bounds hn
  obtain ⟨denLow, denHigh⟩ := log2_bounds hd
  have positive : (0 : ℚ) < den := by exact_mod_cast hd
  have two : (2 : ℚ) ≠ 0 := two_ne_zero
  unfold floorLog2
  dsimp only
  split
  · rename_i fits
    refine ⟨(shift_le_iff hd _).mp fits, ?_⟩
    rw [div_lt_iff₀ positive]
    calc (num : ℚ) < 2 ^ ((num.log2 : ℤ) + 1) := numHigh
      _ = 2 ^ ((num.log2 : ℤ) - den.log2 + 1) * 2 ^ (den.log2 : ℤ) := by rw [← zpow_add₀ two]; congr 1; omega
      _ ≤ 2 ^ ((num.log2 : ℤ) - den.log2 + 1) * den := by gcongr
  · rename_i wide
    refine ⟨?_, ?_⟩
    · rw [le_div_iff₀ positive]
      calc (2 : ℚ) ^ ((num.log2 : ℤ) - den.log2 - 1) * den
          ≤ 2 ^ ((num.log2 : ℤ) - den.log2 - 1) * 2 ^ ((den.log2 : ℤ) + 1) := by gcongr
        _ = 2 ^ (num.log2 : ℤ) := by rw [← zpow_add₀ two]; congr 1; omega
        _ ≤ num := numLow
    · rw [sub_add_cancel]
      exact lt_of_not_ge fun le => wide ((shift_le_iff hd _).mpr le)

theorem floorLog2_eq {num den : ℕ} (hn : 0 < num) (hd : 0 < den) {e : ℤ} (low : (2 : ℚ) ^ e ≤ num / den)
    (high : (num : ℚ) / den < 2 ^ (e + 1)) : floorLog2 num den = e := by
  obtain ⟨low', high'⟩ := floorLog2_spec hn hd
  have one : (1 : ℚ) < 2 := one_lt_two
  have above := (zpow_lt_zpow_iff_right₀ one).mp (low.trans_lt high')
  have below := (zpow_lt_zpow_iff_right₀ one).mp (low'.trans_lt high)
  omega

/-! ### The ratio alone -/

section ratio

variable {num den k : ℕ}

theorem floorLog2_mul (hk : 0 < k) (hn : 0 < num) (hd : 0 < den) : floorLog2 (k * num) (k * den) = floorLog2 num den := by
  have same : ((k * num : ℕ) : ℚ) / (k * den : ℕ) = num / den := by
    have positive : (k : ℚ) ≠ 0 := by exact_mod_cast hk.ne'
    push_cast
    exact mul_div_mul_left _ _ positive
  obtain ⟨low, high⟩ := floorLog2_spec hn hd
  exact floorLog2_eq (Nat.mul_pos hk hn) (Nat.mul_pos hk hd) (same ▸ low) (same ▸ high)

theorem roundDiv_mul (hk : 0 < k) : roundDiv (k * num) (k * den) = roundDiv num den := by
  have left : 2 * (k * num % (k * den)) < k * den ↔ 2 * (num % den) < den := by
    rw [Nat.mul_mod_mul_left, Nat.mul_left_comm, Nat.mul_lt_mul_left hk]
  have right : k * den < 2 * (k * num % (k * den)) ↔ den < 2 * (num % den) := by
    rw [Nat.mul_mod_mul_left, Nat.mul_left_comm, Nat.mul_lt_mul_left hk]
  simp only [roundDiv, left, right, Nat.mul_div_mul_left _ _ hk]

theorem ofRatio_mul (negative : Bool) (hk : 0 < k) (hd : 0 < den) :
    ofRatio negative (k * num) (k * den) = ofRatio negative num den := by
  by_cases zero : num = 0
  · simp [ofRatio, zero]
  · have shift : ∀ a s : ℕ, (k * a) <<< s = k * (a <<< s) := by
      intro a s
      rw [Nat.shiftLeft_eq, Nat.shiftLeft_eq, Nat.mul_assoc]
    have positive : ¬ k * num = 0 := by
      rw [Nat.mul_eq_zero]
      omega
    unfold ofRatio
    rw [if_neg positive, if_neg zero, floorLog2_mul hk (by omega) hd]
    simp only [shift, roundDiv_mul hk]

end ratio

theorem ofRatio_congr (negative : Bool) {a b c d : ℕ} (hb : 0 < b) (hd : 0 < d) (same : (a : ℚ) / b = c / d) :
    ofRatio negative a b = ofRatio negative c d := by
  have cross : d * a = b * c := by
    have hb' : (b : ℚ) ≠ 0 := by exact_mod_cast hb.ne'
    have hd' : (d : ℚ) ≠ 0 := by exact_mod_cast hd.ne'
    rw [div_eq_div_iff hb' hd'] at same
    have cast : ((d * a : ℕ) : ℚ) = (b * c : ℕ) := by
      push_cast
      linarith
    exact_mod_cast cast
  calc ofRatio negative a b = ofRatio negative (d * a) (d * b) := (ofRatio_mul negative hd hb).symm
    _ = ofRatio negative (b * c) (b * d) := by rw [cross, Nat.mul_comm d b]
    _ = ofRatio negative c d := ofRatio_mul negative hb hd

theorem ten_zpow_eq (e : ℤ) : (10 : ℚ) ^ e = 10 ^ e.toNat / 10 ^ (-e).toNat := by
  rw [← zpow_natCast, ← zpow_natCast, ← zpow_sub₀ (by norm_num)]
  congr 1
  omega

/-- A decimal rounds as the ratio does that it is equal to. -/
theorem ofDecimal_eq_ofRatio (negative : Bool) {a n d : ℕ} {e : ℤ} (hd : 0 < d) (same : (a : ℚ) * 10 ^ e = n / d) :
    ofDecimal negative a e = ofRatio negative n d := by
  refine ofRatio_congr negative (Nat.pow_pos (by decide)) hd ?_
  rw [← same, ten_zpow_eq]
  simp only [Nat.pow_eq]
  push_cast
  rw [mul_div_assoc]

theorem ofDecimal_congr (negative : Bool) {a b : ℕ} {e f : ℤ} (same : (a : ℚ) * 10 ^ e = b * 10 ^ f) :
    ofDecimal negative a e = ofDecimal negative b f := by
  refine ofDecimal_eq_ofRatio negative (Nat.pow_pos (by decide)) ?_
  rw [same, ten_zpow_eq]
  simp only [Nat.pow_eq]
  push_cast
  rw [mul_div_assoc]

/-! ### Words -/

theorem exponentWeight_eq : exponentWeight = 4503599627370496 := rfl

theorem signWeight_eq : signWeight = 9223372036854775808 := rfl

theorem infinity_eq : infinity = 2047 * 4503599627370496 := rfl

theorem magnitude_lt (x : Binary64) : x.magnitude < signWeight := Nat.mod_lt _ (by decide)

/-- The number that a word holds. -/
theorem toNat_ofMagnitude (negative : Bool) {m : ℕ} (h : m < signWeight) :
    (ofMagnitude negative m).bits.toNat = if negative then signWeight + m else m := by
  have fits : (if negative then signWeight + m else m) < UInt64.size := by
    rw [signWeight_eq] at h ⊢
    rw [show UInt64.size = 18446744073709551616 from rfl]
    split <;> omega
  exact UInt64.toNat_ofNat_of_lt' fits

theorem magnitude_ofMagnitude (negative : Bool) {m : ℕ} (h : m < signWeight) : (ofMagnitude negative m).magnitude = m := by
  rw [magnitude, toNat_ofMagnitude negative h]
  rw [signWeight_eq] at h ⊢
  split <;> omega

theorem negative_ofMagnitude (negative : Bool) {m : ℕ} (h : m < signWeight) : (ofMagnitude negative m).negative = negative := by
  rw [Binary64.negative, toNat_ofMagnitude negative h]
  rw [signWeight_eq] at h ⊢
  cases negative
  · rw [if_neg Bool.false_ne_true, beq_eq_false_iff_ne]
    omega
  · rw [if_pos rfl, beq_iff_eq]
    omega

theorem ofMagnitude_magnitude (x : Binary64) : ofMagnitude x.negative x.magnitude = x := by
  have bound : x.bits.toNat < 18446744073709551616 := x.bits.toNat_lt_size
  have word : (if x.negative then signWeight + x.magnitude else x.magnitude) = x.bits.toNat := by
    unfold negative magnitude
    rw [signWeight_eq]
    by_cases high : x.bits.toNat / 9223372036854775808 = 1
    · simp only [high, BEq.rfl, if_true]
      omega
    · rw [if_neg (by simpa using high)]
      omega
  unfold ofMagnitude
  rw [word]
  exact congrArg Binary64.mk UInt64.ofNat_toNat

/-- The sign of a rounded ratio is the one given, and does not matter to its magnitude. -/
theorem ofRatio_eq_ofMagnitude (negative : Bool) (num den : ℕ) :
    ofRatio negative num den = ofMagnitude negative (ofRatio false num den).magnitude := by
  unfold ofRatio
  split
  · rfl
  · have small : ∀ m : ℕ, min infinity m < signWeight := fun m => (Nat.min_le_left _ _).trans_lt (by decide)
    dsimp only
    rw [magnitude_ofMagnitude false (small _)]

theorem ofDecimal_eq_ofMagnitude (negative : Bool) (digits : ℕ) (exponent : ℤ) :
    ofDecimal negative digits exponent = ofMagnitude negative (ofDecimal false digits exponent).magnitude :=
  ofRatio_eq_ofMagnitude negative _ _

/-! ### A double rounds to itself -/

theorem roundDiv_mul_right {n d : ℕ} (hd : 0 < d) : roundDiv (n * d) d = n := by
  simp [roundDiv, Nat.mul_div_cancel _ hd, hd]

theorem magnitude_eq (x : Binary64) : x.magnitude = exponentWeight * x.biased + x.fraction :=
  (Nat.div_add_mod x.magnitude exponentWeight).symm

theorem fraction_lt (x : Binary64) : x.fraction < exponentWeight := Nat.mod_lt _ (by decide)

/-- The significand and the biased exponent count the magnitude, also where no one is left out. -/
theorem magnitude_eq_significand (x : Binary64) :
    x.magnitude = x.significand + (x.exponent + 1074).toNat * exponentWeight := by
  rw [magnitude_eq, significand, exponent]
  rw [exponentWeight_eq]
  split
  · rename_i zero
    simp [zero]
  · rename_i normal
    rw [show (((max x.biased 1 : ℕ) : ℤ) - 1075 + 1074).toNat = x.biased - 1 by omega]
    omega

theorem magnitude_lt_infinity {x : Binary64} (finite : x.isFinite = true) : x.magnitude < infinity := by
  have bound := magnitude_lt x
  have fraction := fraction_lt x
  have split := magnitude_eq x
  have bounded : x.biased ≠ 2047 := by simpa [isFinite] using finite
  rw [signWeight_eq] at bound
  rw [infinity_eq]
  rw [exponentWeight_eq] at fraction split
  omega

theorem ratio_eq (s : ℕ) (e : ℤ) : ((s <<< e.toNat : ℕ) : ℚ) / (1 <<< (-e).toNat : ℕ) = s * 2 ^ e := by
  rw [two_zpow_eq, Nat.shiftLeft_eq, Nat.shiftLeft_eq]
  push_cast
  rw [one_mul, mul_div_assoc]

theorem one_shiftLeft_pos (n : ℕ) : 0 < 1 <<< n := by
  rw [Nat.shiftLeft_eq]
  positivity

/-- The lowest place of the significand is the place at which the ratio is rounded. -/
theorem rounding_place {x : Binary64} (some : 0 < x.significand) :
    max (-1074) (floorLog2 (x.significand <<< x.exponent.toNat) (1 <<< (-x.exponent).toNat) - 52) = x.exponent := by
  have hd := one_shiftLeft_pos (-x.exponent).toNat
  have hn : 0 < x.significand <<< x.exponent.toNat := by
    rw [Nat.shiftLeft_eq]
    positivity
  have fraction := fraction_lt x
  have weight : exponentWeight = 2 ^ 52 := rfl
  have scale : (0 : ℚ) < 2 ^ x.exponent := by positivity
  obtain ⟨low, -⟩ := floorLog2_spec hn hd
  rw [ratio_eq] at low
  by_cases zero : x.biased = 0
  · have place : x.exponent = -1074 := by simp [exponent, zero]
    have below : (x.significand : ℚ) < 2 ^ (52 : ℤ) := by
      rw [significand, if_pos zero]
      rw [weight] at fraction
      exact_mod_cast fraction
    have less : (2 : ℚ) ^ floorLog2 (x.significand <<< x.exponent.toNat) (1 <<< (-x.exponent).toNat) < 2 ^ (52 + x.exponent) := by
      rw [zpow_add₀ two_ne_zero]
      exact low.trans_lt (mul_lt_mul_of_pos_right below scale)
    have smaller := (zpow_lt_zpow_iff_right₀ one_lt_two).mp less
    rw [place] at smaller ⊢
    omega
  · have place : x.exponent = x.biased - 1075 := by
      rw [exponent]
      omega
    have above : (2 : ℚ) ^ (52 : ℤ) ≤ x.significand := by
      rw [significand, if_neg zero, weight]
      push_cast
      norm_cast
      omega
    have below : (x.significand : ℚ) < 2 ^ (53 : ℤ) := by
      rw [significand, if_neg zero, weight]
      rw [weight] at fraction
      norm_cast
      omega
    have exact : floorLog2 (x.significand <<< x.exponent.toNat) (1 <<< (-x.exponent).toNat) = 52 + x.exponent := by
      refine floorLog2_eq hn hd ?_ ?_
      · rw [ratio_eq, zpow_add₀ two_ne_zero]
        exact mul_le_mul_of_nonneg_right above scale.le
      · rw [ratio_eq, show 52 + x.exponent + 1 = 53 + x.exponent by omega, zpow_add₀ two_ne_zero]
        exact mul_lt_mul_of_pos_right below scale
    rw [exact]
    omega

/-- At its own place a significand is no more rounded. -/
theorem roundDiv_shift (s a b : ℕ) : roundDiv (s <<< a <<< b) (1 <<< b <<< a) = s := by
  have product : s <<< a <<< b = s * (1 <<< b <<< a) := by
    simp only [Nat.shiftLeft_eq]
    ring
  have positive : 0 < 1 <<< b <<< a := by
    simp only [Nat.shiftLeft_eq]
    positivity
  rw [product, roundDiv_mul_right positive]

theorem magnitude_of_significand_zero {x : Binary64} (zero : x.significand = 0) : x.magnitude = 0 := by
  have subnormal : x.biased = 0 := by
    by_contra normal
    rw [significand, if_neg normal, exponentWeight_eq] at zero
    omega
  rw [significand, if_pos subnormal] at zero
  rw [magnitude_eq, subnormal, zero]
  rfl

theorem ofRatio_self {x : Binary64} (finite : x.isFinite = true) :
    (ofRatio false (x.significand <<< x.exponent.toNat) (1 <<< (-x.exponent).toNat)).magnitude = x.magnitude := by
  unfold ofRatio
  by_cases zero : x.significand = 0
  · rw [zero, Nat.zero_shiftLeft, if_pos rfl, magnitude_ofMagnitude false (by decide), magnitude_of_significand_zero zero]
  · have some : 0 < x.significand := by omega
    have nonzero : ¬ x.significand <<< x.exponent.toNat = 0 := by
      rw [Nat.shiftLeft_eq]
      positivity
    rw [if_neg nonzero]
    dsimp only
    rw [rounding_place some, roundDiv_shift, ← magnitude_eq_significand,
      Nat.min_eq_right (magnitude_lt_infinity finite).le, magnitude_ofMagnitude false (magnitude_lt x)]

end ChunkSelector.Binary64
