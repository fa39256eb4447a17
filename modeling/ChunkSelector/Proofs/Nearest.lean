import ChunkSelector.Proofs.Rounding
import Mathlib.Algebra.Order.Group.Unbundled.Abs

/-!
# Nearest doubles

`ofDecimal_isNearest`: a decimal becomes the double that is nearest to it, and in a tie the one with the
even significand. An infinity takes part as the number `2 ^ 1024`, so a decimal becomes an infinity where
the doubles would go on with that number. `IsNearest.value_eq`: these rules leave one value.
-/

namespace ChunkSelector.Binary64

/-- What the word stands for, its sign left out. For an infinity that is `2 ^ 1024`. -/
def size (x : Binary64) : ℚ := x.significand * 2 ^ x.exponent

/-- A number, or its negation. -/
def signed (negative : Bool) (v : ℚ) : ℚ := if negative then -v else v

def value (x : Binary64) : ℚ := signed x.negative x.size

/-- No other double is nearer to `v`, and the significand is even if one is as near. -/
structure IsNearest (x : Binary64) (v : ℚ) : Prop where
  number : x.isNaN = false
  nearest (y : Binary64) : y.isNaN = false → |x.value - v| ≤ |y.value - v|
  even (y : Binary64) : y.isNaN = false → y.value ≠ x.value → |y.value - v| = |x.value - v| → x.significand % 2 = 0

/-! ### Rounding to an integer -/

/-- The number is at most one half away from `t`, and even if it is that far away. -/
structure Rounds (t : ℚ) (s : ℕ) : Prop where
  error : |(s : ℚ) - t| ≤ 1 / 2
  even : |(s : ℚ) - t| = 1 / 2 → s % 2 = 0

variable {t v w : ℚ} {s num den : ℕ} {q : ℤ} {x y : Binary64}

theorem Rounds.down {n : ℕ} {f : ℚ} (low : 0 ≤ f) (below : f < 1 / 2) : Rounds (n + f) n := by
  have distance : |(n : ℚ) - (n + f)| = f := by rw [sub_add_cancel_left, abs_neg, abs_of_nonneg low]
  exact ⟨by linarith, fun tie => by linarith⟩

theorem Rounds.up {n : ℕ} {f : ℚ} (above : 1 / 2 < f) (high : f < 1) : Rounds (n + f) (n + 1) := by
  have distance : |((n + 1 : ℕ) : ℚ) - (n + f)| = 1 - f := by
    push_cast
    rw [add_sub_add_left_eq_sub, abs_of_pos (by linarith)]
  exact ⟨by linarith, fun tie => by linarith⟩

theorem Rounds.half (n : ℕ) : Rounds (n + 1 / 2) (n + n % 2) := by
  have distance : |((n + n % 2 : ℕ) : ℚ) - (n + 1 / 2)| = 1 / 2 := by
    push_cast
    rw [add_sub_add_left_eq_sub]
    rcases Nat.mod_two_eq_zero_or_one n with even | odd
    · norm_num [even]
    · norm_num [odd]
  exact ⟨distance.le, fun _ => by omega⟩

theorem roundDiv_rounds (hd : 0 < den) : Rounds ((num : ℚ) / den) (roundDiv num den) := by
  have positive : (0 : ℚ) < den := by exact_mod_cast hd
  have quotient : (num : ℚ) / den = (num / den : ℕ) + (num % den : ℕ) / den := by
    have parts : (num : ℚ) = den * (num / den : ℕ) + (num % den : ℕ) := by exact_mod_cast (Nat.div_add_mod num den).symm
    rw [parts]
    field_simp
  have compared : ((num % den : ℕ) : ℚ) / den = (2 * (num % den) : ℕ) / den * (1 / 2) := by
    push_cast
    ring
  unfold roundDiv
  dsimp only
  rw [quotient]
  split
  · rename_i below
    refine .down (by positivity) ?_
    have less : ((2 * (num % den) : ℕ) : ℚ) / den < 1 := by
      rw [div_lt_one positive]
      exact_mod_cast below
    linarith
  · split
    · rename_i above
      refine .up ?_ ?_
      · have more : 1 < ((2 * (num % den) : ℕ) : ℚ) / den := by
          rw [one_lt_div positive]
          exact_mod_cast above
        linarith
      · rw [div_lt_one positive]
        exact_mod_cast Nat.mod_lt num hd
    · have tie : 2 * (num % den) = den := by omega
      rw [tie, div_self positive.ne', one_mul] at compared
      rw [compared]
      exact .half _

/-- Two integers cannot both be close to a number. -/
theorem one_le_distances {k : ℤ} (other : k ≠ s) (t : ℚ) : 1 ≤ |(k : ℚ) - t| + |(s : ℚ) - t| := by
  have apart : 1 ≤ |k - (s : ℤ)| := Int.one_le_abs (sub_ne_zero.mpr other)
  have between := abs_sub_le (k : ℚ) t s
  rw [abs_sub_comm t] at between
  calc (1 : ℚ) ≤ |(k : ℚ) - s| := by exact_mod_cast apart
    _ ≤ |(k : ℚ) - t| + |(s : ℚ) - t| := between

theorem Rounds.nearest (h : Rounds t s) (k : ℤ) : |(s : ℚ) - t| ≤ |k - t| := by
  by_cases same : k = s
  · rw [same, Int.cast_natCast]
  · linarith [h.error, one_le_distances same t]

theorem Rounds.even_of_tie (h : Rounds t s) {k : ℤ} (other : k ≠ s) (tie : |(k : ℚ) - t| = |(s : ℚ) - t|) : s % 2 = 0 :=
  h.even (le_antisymm h.error (by linarith [one_le_distances other t]))

/-! ### Doubles on a grid -/

theorem significand_lt (x : Binary64) : x.significand < 2 * exponentWeight := by
  have fraction := x.fraction_lt
  unfold significand
  rw [exponentWeight_eq] at fraction ⊢
  split <;> omega

theorem exponent_eq_or_le_significand (x : Binary64) : x.exponent = -1074 ∨ exponentWeight ≤ x.significand := by
  unfold exponent significand
  split
  · rename_i zero
    exact .inl (by simp [zero])
  · exact .inr (Nat.le_add_right _ _)

theorem exponent_ge (x : Binary64) : -1074 ≤ x.exponent := by
  unfold exponent
  omega

theorem size_nonneg (x : Binary64) : 0 ≤ x.size := by
  unfold size
  positivity

theorem two_zpow_52 : (2 : ℚ) ^ (52 : ℤ) = exponentWeight := by
  rw [exponentWeight_eq]
  norm_num

theorem size_lt (x : Binary64) : x.size < 2 ^ (53 + x.exponent) := by
  have bound : (x.significand : ℚ) < 2 ^ (53 : ℤ) := by
    have below : (x.significand : ℚ) < (2 * exponentWeight : ℕ) := by exact_mod_cast x.significand_lt
    rwa [show (2 : ℚ) ^ (53 : ℤ) = (2 * exponentWeight : ℕ) by rw [exponentWeight_eq]; norm_num]
  rw [size, zpow_add₀ two_ne_zero]
  exact mul_lt_mul_of_pos_right bound (by positivity)

/-- A double is a multiple of a power of two, or it is smaller than any normal significand at that place. -/
theorem size_cases (x : Binary64) (q : ℤ) :
    (∃ k : ℕ, x.size = k * 2 ^ q) ∨ -1074 < q ∧ x.size < 2 ^ (52 + q) := by
  by_cases finer : x.exponent < q
  · refine .inr ⟨lt_of_le_of_lt x.exponent_ge finer, x.size_lt.trans_le ?_⟩
    exact zpow_le_zpow_right₀ one_le_two (by omega)
  · refine .inl ⟨x.significand * 2 ^ (x.exponent - q).toNat, ?_⟩
    have place : x.exponent = ((x.exponent - q).toNat : ℤ) + q := by omega
    rw [size]
    push_cast
    rw [mul_assoc, ← zpow_natCast, ← zpow_add₀ two_ne_zero, ← place]

/-- The integer that the number rounds to at a place gives the nearest double there. -/
theorem Rounds.nearest_size (h : Rounds (v / 2 ^ q) s) (normal : -1074 < q → 2 ^ (52 + q) ≤ v)
    (sized : w = y.size ∨ w = -y.size) :
    |s * 2 ^ q - v| ≤ |w - v| ∧ (w ≠ s * 2 ^ q → |w - v| = |s * 2 ^ q - v| → s % 2 = 0) := by
  have scale : (0 : ℚ) < 2 ^ q := by positivity
  have scaled : ∀ k : ℚ, |k * 2 ^ q - v| = |k - v / 2 ^ q| * 2 ^ q := by
    intro k
    rw [← abs_of_pos scale, ← abs_mul, abs_of_pos scale, sub_mul, div_mul_cancel₀ _ scale.ne']
  have onGrid : ∀ k : ℤ, |s * 2 ^ q - v| ≤ |k * 2 ^ q - v| := by
    intro k
    rw [scaled, scaled]
    exact mul_le_mul_of_nonneg_right (h.nearest k) scale.le
  rcases y.size_cases q with ⟨k, multiple⟩ | ⟨place, small⟩
  · obtain ⟨k, rfl⟩ : ∃ k : ℤ, w = k * 2 ^ q := by
      rcases sized with rfl | rfl
      · exact ⟨k, by rw [multiple]; push_cast; ring⟩
      · exact ⟨-k, by rw [multiple]; push_cast; ring⟩
    refine ⟨onGrid k, fun other tie => ?_⟩
    rw [scaled, scaled] at tie
    refine h.even_of_tie (k := k) ?_ (mul_right_cancel₀ scale.ne' tie)
    rintro rfl
    exact other (by push_cast; rfl)
  · -- The least normal significand is nearer already.
    have below : w < 2 ^ (52 + q) := by
      have nonneg := y.size_nonneg
      rcases sized with rfl | rfl
      · exact small
      · linarith
    have least := onGrid exponentWeight
    rw [Int.cast_natCast, ← two_zpow_52, ← zpow_add₀ two_ne_zero] at least
    have further : |2 ^ (52 + q) - v| < |w - v| := by
      rw [abs_of_nonpos (sub_nonpos.mpr (normal place)), abs_of_neg (by linarith [normal place])]
      linarith
    exact ⟨(least.trans_lt further).le, fun _ tie => absurd tie (least.trans_lt further).ne'⟩

/-! ### The word of a significand -/

/-- The word of a significand at a place, also where it has just become too wide for it. -/
theorem size_of_magnitude {place : ℕ} (narrow : s ≤ 2 * exponentWeight) (normal : place = 0 ∨ exponentWeight ≤ s)
    (same : x.magnitude = s + place * exponentWeight) :
    x.size = s * 2 ^ ((place : ℤ) - 1074) ∧ (s % 2 = 0 → x.significand % 2 = 0) := by
  have parts := x.magnitude_eq_significand
  have bound := x.significand_lt
  have least := x.exponent_ge
  have shape := x.exponent_eq_or_le_significand
  rw [exponentWeight_eq] at narrow normal same parts bound shape
  unfold size
  by_cases full : s = 2 * 4503599627370496
  · have significand : x.significand = 4503599627370496 := by omega
    have exponent : x.exponent = (place : ℤ) - 1074 + 1 := by omega
    rw [significand, exponent, full, zpow_add_one₀ two_ne_zero]
    refine ⟨by push_cast; ring, fun _ => by omega⟩
  · have significand : x.significand = s := by omega
    have exponent : x.exponent = (place : ℤ) - 1074 := by omega
    rw [significand, exponent]
    exact ⟨rfl, id⟩

theorem size_of_infinity (infinite : x.magnitude = infinity) : x.size = 2 ^ (1024 : ℤ) := by
  have parts : x.magnitude = exponentWeight + 2046 * exponentWeight := infinite
  obtain ⟨size, -⟩ := size_of_magnitude (by decide) (.inr le_rfl) parts
  rw [size, ← two_zpow_52, ← zpow_add₀ two_ne_zero]
  rfl

/-! ### The order of the words -/

theorem isNaN_eq_false_iff : x.isNaN = false ↔ x.magnitude ≤ infinity := by
  have bound := x.magnitude_lt
  have parts := x.magnitude_eq
  have fraction := x.fraction_lt
  rw [signWeight_eq] at bound
  rw [exponentWeight_eq] at parts fraction
  simp only [isNaN, infinity_eq, Bool.and_eq_false_iff, beq_eq_false_iff_ne, bne_eq_false_iff_eq]
  omega

theorem size_lt_of_next (next : y.magnitude = x.magnitude + 1) : x.size < y.size := by
  have bound := x.significand_lt
  have shape := x.exponent_eq_or_le_significand
  have least := x.exponent_ge
  have same : y.magnitude = (x.significand + 1) + (x.exponent + 1074).toNat * exponentWeight := by
    rw [next, x.magnitude_eq_significand, Nat.add_right_comm]
  obtain ⟨size, -⟩ := size_of_magnitude bound (by omega) same
  rw [show ((x.exponent + 1074).toNat : ℤ) - 1074 = x.exponent by omega] at size
  rw [size, Binary64.size]
  exact mul_lt_mul_of_pos_right (by push_cast; exact lt_add_one _) (by positivity)

/-- The words without a sign stand in the order of their sizes. -/
theorem size_lt_of_magnitude_lt (less : x.magnitude < y.magnitude) : x.size < y.size := by
  obtain ⟨n, further⟩ := Nat.exists_eq_add_of_lt less
  induction n generalizing y with
  | zero => exact size_lt_of_next further
  | succ n ih =>
    have fits := y.magnitude_lt
    have before : (ofMagnitude false (x.magnitude + n + 1)).magnitude = x.magnitude + n + 1 :=
      magnitude_ofMagnitude false (by omega)
    exact (ih (by omega) before).trans (size_lt_of_next (by omega))

theorem size_congr (same : x.magnitude = y.magnitude) : x.size = y.size := by
  unfold size exponent significand biased fraction
  rw [same]

theorem size_le_of_magnitude_le (le : x.magnitude ≤ y.magnitude) : x.size ≤ y.size := by
  rcases Nat.lt_or_eq_of_le le with less | same
  · exact (size_lt_of_magnitude_lt less).le
  · exact (size_congr same).le

theorem size_le_infinity (number : y.isNaN = false) : y.size ≤ 2 ^ (1024 : ℤ) := by
  have infinite : (ofMagnitude false infinity).magnitude = infinity := magnitude_ofMagnitude false (by decide)
  rw [← size_of_infinity infinite]
  exact size_le_of_magnitude_le (by rw [infinite]; exact isNaN_eq_false_iff.mp number)

/-! ### Rounding a ratio -/

/-- The place at which a ratio is rounded. -/
theorem rounding_bounds (hn : 0 < num) (hd : 0 < den) (hq : q = max (-1074) (floorLog2 num den - 52)) :
    (num : ℚ) / den < 2 ^ (53 + q) ∧ (-1074 < q → 2 ^ (52 + q) ≤ (num : ℚ) / den) := by
  obtain ⟨low, high⟩ := floorLog2_spec hn hd
  constructor
  · exact high.trans_le (zpow_le_zpow_right₀ one_le_two (by omega))
  · intro normal
    rwa [show 52 + q = floorLog2 num den by omega]

theorem shifted_ratio (num den : ℕ) (q : ℤ) : ((num <<< (-q).toNat : ℕ) : ℚ) / (den <<< q.toNat : ℕ) = num / den / 2 ^ q := by
  rw [two_zpow_eq, Nat.shiftLeft_eq, Nat.shiftLeft_eq]
  push_cast
  rw [div_div_eq_mul_div, div_mul_eq_mul_div, div_div]

theorem Rounds.le_of_lt {n : ℕ} (h : Rounds t s) (below : t < n) : s ≤ n := by
  have error := abs_le.mp h.error
  have near : (s : ℚ) < n + 1 := by linarith
  have : s < n + 1 := by exact_mod_cast near
  omega

theorem Rounds.ge_of_le {n : ℕ} (h : Rounds t s) (above : n ≤ t) : n ≤ s := by
  have error := abs_le.mp h.error
  have near : (n : ℚ) < s + 1 := by linarith
  have : n < s + 1 := by exact_mod_cast near
  omega

theorem ofRatio_nearest_size (hn : 0 < num) (hd : 0 < den) (number : y.isNaN = false) (sized : w = y.size ∨ w = -y.size) :
    |(ofRatio false num den).size - num / den| ≤ |w - num / den| ∧
      (w ≠ (ofRatio false num den).size → |w - num / den| = |(ofRatio false num den).size - num / den| →
        (ofRatio false num den).significand % 2 = 0) := by
  obtain ⟨q, place⟩ : ∃ q, q = max (-1074) (floorLog2 num den - 52) := ⟨_, rfl⟩
  obtain ⟨high, normal⟩ := rounding_bounds hn hd place
  have scale : (0 : ℚ) < 2 ^ q := by positivity
  have rounds : Rounds ((num : ℚ) / den / 2 ^ q) (roundDiv (num <<< (-q).toNat) (den <<< q.toNat)) := by
    rw [← shifted_ratio]
    refine roundDiv_rounds ?_
    rw [Nat.shiftLeft_eq]
    positivity
  have magnitude : (ofRatio false num den).magnitude =
      min infinity (roundDiv (num <<< (-q).toNat) (den <<< q.toNat) + (q + 1074).toNat * exponentWeight) := by
    unfold ofRatio
    rw [if_neg (by omega), ← place]
    exact magnitude_ofMagnitude false ((Nat.min_le_left _ _).trans_lt (by decide))
  generalize roundDiv (num <<< (-q).toNat) (den <<< q.toNat) = s at rounds magnitude
  generalize ofRatio false num den = x at magnitude ⊢
  have narrow : s ≤ 2 * exponentWeight := by
    refine rounds.le_of_lt ?_
    rw [div_lt_iff₀ scale]
    refine high.trans_eq ?_
    rw [zpow_add₀ two_ne_zero, show (2 : ℚ) ^ (53 : ℤ) = 2 ^ (52 : ℤ) * 2 by norm_num, two_zpow_52]
    push_cast
    ring
  have wide : (q + 1074).toNat = 0 ∨ exponentWeight ≤ s := by
    by_cases subnormal : q = -1074
    · exact .inl (by omega)
    · refine .inr (rounds.ge_of_le ?_)
      rw [le_div_iff₀ scale, ← two_zpow_52, ← zpow_add₀ two_ne_zero]
      exact normal (by omega)
  by_cases fits : s + (q + 1074).toNat * exponentWeight ≤ infinity
  · rw [Nat.min_eq_right fits] at magnitude
    obtain ⟨size, even⟩ := size_of_magnitude narrow wide magnitude
    rw [show ((q + 1074).toNat : ℤ) - 1074 = q by omega] at size
    obtain ⟨nearest, tie⟩ := rounds.nearest_size normal sized
    rw [size]
    exact ⟨nearest, fun other same => even (tie other same)⟩
  · -- Everything but the infinity is further down.
    rw [Nat.min_eq_left (by omega)] at magnitude
    have beyond : (2 : ℚ) ^ (1024 : ℤ) ≤ num / den := by
      rw [infinity_eq, exponentWeight_eq] at fits
      rw [exponentWeight_eq] at narrow
      exact (zpow_le_zpow_right₀ one_le_two (by omega)).trans (normal (by omega))
    have below : w ≤ 2 ^ (1024 : ℤ) := by
      have most := size_le_infinity number
      have nonneg := y.size_nonneg
      rcases sized with rfl | rfl
      · exact most
      · exact (neg_le_self nonneg).trans most
    rw [size_of_infinity magnitude, abs_of_nonpos (by linarith), abs_of_nonpos (by linarith)]
    exact ⟨by linarith, fun other same => absurd (by linarith) other⟩

/-! ### Signs -/

theorem negative_ofRatio (negative : Bool) (num den : ℕ) : (ofRatio negative num den).negative = negative := by
  rw [ofRatio_eq_ofMagnitude]
  exact negative_ofMagnitude negative (magnitude_lt _)

theorem magnitude_ofRatio (negative : Bool) (num den : ℕ) :
    (ofRatio negative num den).magnitude = (ofRatio false num den).magnitude := by
  rw [ofRatio_eq_ofMagnitude]
  exact magnitude_ofMagnitude negative (magnitude_lt _)

theorem magnitude_ofRatio_le (negative : Bool) (num den : ℕ) : (ofRatio negative num den).magnitude ≤ infinity := by
  unfold ofRatio
  split
  · rw [magnitude_ofMagnitude negative (by decide)]
    exact Nat.zero_le _
  · dsimp only
    rw [magnitude_ofMagnitude negative ((Nat.min_le_left _ _).trans_lt (by decide))]
    exact Nat.min_le_left _ _

theorem significand_congr (same : x.magnitude = y.magnitude) : x.significand = y.significand := by
  unfold significand biased fraction
  rw [same]

theorem significand_of_zero (zero : x.magnitude = 0) : x.significand = 0 := by
  have parts := x.magnitude_eq_significand
  omega

theorem signed_sub (negative : Bool) (v w : ℚ) : |signed negative w - signed negative v| = |w - v| := by
  cases negative
  · rfl
  · rw [signed, signed, if_pos rfl, if_pos rfl, neg_sub_neg, abs_sub_comm]

theorem exists_signed (negative : Bool) (y : Binary64) :
    ∃ w, y.value = signed negative w ∧ (w = y.size ∨ w = -y.size) := by
  unfold value signed
  cases negative <;> cases y.negative
  · exact ⟨_, rfl, .inl rfl⟩
  · exact ⟨_, rfl, .inr rfl⟩
  · exact ⟨-y.size, (neg_neg _).symm, .inr rfl⟩
  · exact ⟨_, rfl, .inl rfl⟩

/-- The double of a ratio is the nearest one. -/
theorem ofRatio_isNearest (negative : Bool) (num : ℕ) (hd : 0 < den) :
    (ofRatio negative num den).IsNearest (signed negative (num / den)) := by
  have number := isNaN_eq_false_iff.mpr (magnitude_ofRatio_le negative num den)
  have significand := significand_congr (magnitude_ofRatio negative num den)
  have value : (ofRatio negative num den).value = signed negative (ofRatio false num den).size := by
    rw [← size_congr (magnitude_ofRatio negative num den), Binary64.value, negative_ofRatio]
  rcases Nat.eq_zero_or_pos num with rfl | positive
  · have zero : (ofRatio false 0 den).significand = 0 := significand_of_zero rfl
    have size : (ofRatio false 0 den).size = ((0 : ℕ) : ℚ) / den := by
      rw [Binary64.size, zero, Nat.cast_zero, zero_mul, zero_div]
    refine ⟨number, fun y _ => ?_, fun _ _ _ _ => by rw [significand, zero]⟩
    rw [value, size, sub_self, abs_zero]
    exact abs_nonneg _
  · refine ⟨number, ?_, ?_⟩
    · intro y other
      obtain ⟨w, same, sized⟩ := exists_signed negative y
      rw [value, same, signed_sub, signed_sub]
      exact (ofRatio_nearest_size positive hd other sized).1
    · intro y other distinct tie
      obtain ⟨w, same, sized⟩ := exists_signed negative y
      rw [value, same, signed_sub, signed_sub] at tie
      rw [significand]
      refine (ofRatio_nearest_size positive hd other sized).2 ?_ tie
      rintro rfl
      exact distinct (by rw [value, same])

theorem ofDecimal_isNearest (negative : Bool) (digits : ℕ) (exponent : ℤ) :
    (ofDecimal negative digits exponent).IsNearest (signed negative (digits * 10 ^ exponent)) := by
  have same : (digits : ℚ) * 10 ^ exponent = (digits * 10 ^ exponent.toNat : ℕ) / (10 ^ (-exponent).toNat : ℕ) := by
    rw [ten_zpow_eq]
    push_cast
    rw [mul_div_assoc]
  have positive : 0 < 10 ^ (-exponent).toNat := by positivity
  rw [same, ofDecimal_eq_ofRatio negative positive same]
  exact ofRatio_isNearest negative _ positive

theorem negative_ofDecimal (negative : Bool) (digits : ℕ) (exponent : ℤ) :
    (ofDecimal negative digits exponent).negative = negative :=
  negative_ofRatio negative _ _

/-! ### There is one nearest double -/

theorem even_magnitude (even : x.significand % 2 = 0) : x.magnitude % 2 = 0 := by
  have parts := x.magnitude_eq_significand
  rw [exponentWeight_eq] at parts
  omega

theorem size_eq_zero (zero : x.magnitude = 0) : x.size = 0 := by
  rw [size, significand_of_zero zero, Nat.cast_zero, zero_mul]

/-- Between two words of the same parity there is another word. -/
theorem exists_size_between (negative : Bool) (even : x.magnitude % 2 = 0) (even' : y.magnitude % 2 = 0)
    (less : x.magnitude < y.magnitude) (number : y.isNaN = false) :
    ∃ z : Binary64, z.isNaN = false ∧ z.negative = negative ∧ x.size < z.size ∧ z.size < y.size := by
  have bound := isNaN_eq_false_iff.mp number
  have fits : x.magnitude + 1 < signWeight := by
    have := y.magnitude_lt
    omega
  have next := magnitude_ofMagnitude negative fits
  refine ⟨_, isNaN_eq_false_iff.mpr ?_, negative_ofMagnitude negative fits, size_lt_of_next next, ?_⟩
  · rw [next]
    omega
  · refine size_lt_of_magnitude_lt ?_
    rw [next]
    omega

/-- Between zero and a word that is even but not zero there is another word. -/
theorem exists_size_below (negative : Bool) (even : y.magnitude % 2 = 0) (nonzero : 0 < y.magnitude) (number : y.isNaN = false) :
    ∃ z : Binary64, z.isNaN = false ∧ z.negative = negative ∧ 0 < z.size ∧ z.size < y.size := by
  have zero : (ofMagnitude false 0).magnitude = 0 := magnitude_ofMagnitude false (by decide)
  rw [← size_eq_zero zero]
  exact exists_size_between negative (by rw [zero]) even (by rwa [zero]) number

theorem magnitude_lt_of_size_lt (less : x.size < y.size) : x.magnitude < y.magnitude := by
  by_contra le
  exact absurd less (size_le_of_magnitude_le (Nat.le_of_not_lt le)).not_gt

theorem exists_value_between (even : x.significand % 2 = 0) (even' : y.significand % 2 = 0) (number : x.isNaN = false)
    (number' : y.isNaN = false) (less : x.value < y.value) :
    ∃ z : Binary64, z.isNaN = false ∧ x.value < z.value ∧ z.value < y.value := by
  have hx := even_magnitude even
  have hy := even_magnitude even'
  have nonneg := x.size_nonneg
  have nonneg' := y.size_nonneg
  simp only [value, signed] at less ⊢
  cases sign : x.negative <;> cases sign' : y.negative <;>
    simp only [sign, sign', if_true, if_false, Bool.false_eq_true] at less ⊢
  · obtain ⟨z, fine, negative, above, below⟩ := exists_size_between false hx hy (magnitude_lt_of_size_lt less) number'
    exact ⟨z, fine, by simpa [negative] using above, by simpa [negative] using below⟩
  · linarith
  · -- Zero lies between, but may be one of the two.
    rcases Nat.eq_zero_or_pos y.magnitude with none | some
    · rw [size_eq_zero none] at less ⊢
      have nonzero : x.magnitude ≠ 0 := fun absent => by simp [size_eq_zero absent] at less
      obtain ⟨z, fine, negative, above, below⟩ := exists_size_below true hx (by omega) number
      exact ⟨z, fine, by simpa [negative] using below, by simpa [negative] using above⟩
    · obtain ⟨z, fine, negative, above, below⟩ := exists_size_below false hy some number'
      refine ⟨z, fine, ?_, by simpa [negative] using below⟩
      rw [negative, if_neg Bool.false_ne_true]
      linarith
  · obtain ⟨z, fine, negative, above, below⟩ :=
      exists_size_between true hy hx (magnitude_lt_of_size_lt (neg_lt_neg_iff.mp less)) number
    exact ⟨z, fine, by simpa [negative] using below, by simpa [negative] using above⟩

/-- Of two nearest doubles none is below the other: in a tie both would be even, and a double between them nearer. -/
theorem IsNearest.value_le (hx : x.IsNearest v) (hy : y.IsNearest v) : y.value ≤ x.value := by
  by_contra above
  have less := lt_of_not_ge above
  have tie : |x.value - v| = |y.value - v| :=
    le_antisymm (hx.nearest y hy.number) (hy.nearest x hx.number)
  have middle : y.value - v = v - x.value := by
    rcases abs_eq_abs.mp tie with same | opposite
    · linarith
    · linarith
  obtain ⟨z, number, above, below⟩ := exists_value_between (hx.even y hy.number less.ne' tie.symm)
    (hy.even x hx.number less.ne tie) hx.number hy.number less
  have nearer : |z.value - v| < |x.value - v| := by
    rw [abs_of_neg (by linarith : x.value - v < 0), abs_lt]
    constructor <;> linarith
  exact (hx.nearest z number).not_gt nearer

theorem IsNearest.value_eq (hx : x.IsNearest v) (hy : y.IsNearest v) : x.value = y.value :=
  le_antisymm (hy.value_le hx) (hx.value_le hy)

end ChunkSelector.Binary64
