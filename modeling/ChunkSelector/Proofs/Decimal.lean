import ChunkSelector.Canonical
import ChunkSelector.Proofs.Lexeme
import ChunkSelector.Proofs.Rounding
import ChunkSelector.Reading.Token

/-!
# Decimals read back

The shortest decimal of a finite double reads back as that double, and so does its positional text.
-/

namespace ChunkSelector

open Lexeme Token

namespace Decimal

/-! ### The shortest decimal -/

theorem exact_value (x : Binary64) :
    ((exact x).digits : ℚ) * 10 ^ (exact x).exponent = x.significand * 2 ^ x.exponent := by
  have ten : (10 : ℚ) ^ (-x.exponent).toNat = 2 ^ (-x.exponent).toNat * 5 ^ (-x.exponent).toNat := by
    rw [← mul_pow]
    norm_num
  have five : (5 : ℚ) ^ (-x.exponent).toNat ≠ 0 := by positivity
  have place : min x.exponent 0 = -((-x.exponent).toNat : ℤ) := by omega
  simp only [exact, place, Nat.shiftLeft_eq, Nat.pow_eq]
  rw [zpow_neg, zpow_natCast, Binary64.two_zpow_eq, ten]
  push_cast
  field_simp

theorem readsBack_exact {x : Binary64} (finite : x.isFinite = true) : readsBack x (exact x) = true := by
  have rounded : Binary64.ofDecimal false (exact x).digits (exact x).exponent =
      .ofRatio false (x.significand <<< x.exponent.toNat) (1 <<< (-x.exponent).toNat) := by
    refine Binary64.ofDecimal_eq_ofRatio false (Binary64.one_shiftLeft_pos _) ?_
    rw [Binary64.ratio_eq, exact_value]
  rw [readsBack, rounded, Binary64.ofRatio_self finite]
  exact BEq.rfl

theorem readsBack_withoutLast {tie : Tie} {x : Binary64} {whole d : Decimal} {dropped : ℕ}
    (h : withoutLast tie x whole dropped = some d) : readsBack x d = true := by
  unfold withoutLast at h
  dsimp only at h
  split at h
  · rename_i lower upper
    obtain rfl := Option.some.inj h
    split
    · exact lower
    · exact upper
  · rename_i lower _
    obtain rfl := Option.some.inj h
    exact lower
  · rename_i _ upper
    obtain rfl := Option.some.inj h
    exact upper
  · cases h

/-- Whatever is dropped, the search ends at a decimal that reads back. -/
theorem readsBack_search {tie : Tie} {x : Binary64} {whole : Decimal} (h : readsBack x whole = true) (dropped : ℕ) :
    readsBack x (search tie x whole dropped) = true := by
  induction dropped with
  | zero => exact h
  | succ dropped ih =>
    rw [search]
    cases found : withoutLast tie x whole (dropped + 1) with
    | none => exact ih
    | some d => exact readsBack_withoutLast found

theorem readsBack_shortest (tie : Tie) {x : Binary64} (finite : x.isFinite = true) : readsBack x (shortest tie x) = true :=
  readsBack_search (readsBack_exact finite) _

/-! ### Positional text -/

theorem digits_toDigits (n : ℕ) : Digits (Nat.toDigits 10 n) :=
  fun _ member => Nat.isDigit_of_mem_toDigits (by decide) (by decide) member

theorem exists_zeros (text : List Char) : ∃ n, text = (text.reverse.dropWhile (· == '0')).reverse ++ List.replicate n '0' := by
  refine ⟨(text.reverse.takeWhile (· == '0')).length, ?_⟩
  have zeros : text.reverse.takeWhile (· == '0') = List.replicate (text.reverse.takeWhile (· == '0')).length '0' := by
    refine List.eq_replicate_iff.mpr ⟨rfl, fun c member => ?_⟩
    simpa using mem_takeWhile_holds c member
  have joined := List.takeWhile_append_dropWhile (p := (· == '0')) (l := text.reverse)
  rw [zeros] at joined
  have reversed := congrArg List.reverse joined
  rw [List.reverse_append, List.reverse_replicate, List.reverse_reverse] at reversed
  exact reversed.symm

theorem digits_replicate (n : ℕ) : Digits (List.replicate n '0') := by
  intro c member
  obtain rfl := (List.mem_replicate.mp member).2
  decide

theorem digitsValue_toDigits (n : ℕ) : digitsValue (Nat.toDigits 10 n) = n := Nat.ofDigitChars_ten_toDigits

theorem digitsValue_zeros (ds : List Char) (n : ℕ) : digitsValue (ds ++ List.replicate n '0') = 10 ^ n * digitsValue ds := by
  rw [digitsValue, Nat.ofDigitChars_append, Nat.ofDigitChars_replicate_zero]
  rfl

theorem digitsValue_zeros_append (n : ℕ) (ds : List Char) : digitsValue (List.replicate n '0' ++ ds) = digitsValue ds := by
  rw [digitsValue, Nat.ofDigitChars_append, Nat.ofDigitChars_replicate_zero, Nat.mul_zero]
  rfl

theorem significant_spec (d : Decimal) : Digits d.significantDigits ∧ d.significantDigits ≠ [] ∧
    (digitsValue d.significantDigits : ℚ) * 10 ^ d.lastPlace = d.digits * 10 ^ d.exponent := by
  by_cases zero : d.digits = 0
  · have digit : Digits ['0'] := digits_replicate 1
    simp only [significantDigits, lastPlace, if_pos zero]
    exact ⟨digit, by simp, by simp [zero, digitsValue, Nat.ofDigitChars]⟩
  · obtain ⟨n, split⟩ := exists_zeros (Nat.toDigits 10 d.digits)
    have all := digits_toDigits d.digits
    have value := digitsValue_toDigits d.digits
    have shown : d.significantDigits = ((Nat.toDigits 10 d.digits).reverse.dropWhile (· == '0')).reverse := by
      rw [significantDigits, if_neg zero]
    rw [← shown] at split
    have place : d.lastPlace = d.exponent + n := by
      rw [lastPlace, if_neg zero, split]
      simp
    rw [split] at all value
    rw [digitsValue_zeros] at value
    refine ⟨(digits_append_iff.mp all).1, ?_, ?_⟩
    · intro none
      rw [none] at value
      exact zero (by rw [← value]; simp [digitsValue])
    · rw [place, zpow_add₀ (by norm_num), zpow_natCast, ← value]
      push_cast
      ring

theorem positional_spec (d : Decimal) : ∃ whole fraction, d.positional = whole ++ '.' :: fraction ∧
    Digits whole ∧ whole ≠ [] ∧ Digits fraction ∧ fraction ≠ [] ∧
    (digitsValue (whole ++ fraction) : ℚ) * 10 ^ (-(fraction.length : ℤ)) = d.digits * 10 ^ d.exponent := by
  obtain ⟨digits, some, value⟩ := significant_spec d
  unfold positional
  dsimp only
  split
  · rename_i whole
    obtain ⟨n, place⟩ := Int.eq_ofNat_of_zero_le whole
    have zeros := digits_replicate n
    refine ⟨d.significantDigits ++ List.replicate n '0', ['0'], ?_, digits_append_iff.mpr ⟨digits, zeros⟩, by simp [some],
      digits_replicate 1, by simp, ?_⟩
    · simp [place]
    · have joined : d.significantDigits ++ List.replicate n '0' ++ ['0'] = d.significantDigits ++ List.replicate (n + 1) '0' := by
        rw [List.append_assoc, ← List.replicate_succ']
      rw [joined, digitsValue_zeros, ← value, place, List.length_singleton, zpow_neg]
      push_cast
      rw [zpow_natCast, pow_succ]
      ring
  · rename_i negative
    obtain ⟨places, place⟩ : ∃ places : ℕ, d.lastPlace = -places := ⟨(-d.lastPlace).toNat, by omega⟩
    have positive : 0 < places := by omega
    have count : (-d.lastPlace).toNat = places := by omega
    rw [count, ← value, place]
    split
    · rename_i within
      refine ⟨_, _, rfl, fun c member => digits c (List.mem_of_mem_take member), ?_,
        fun c member => digits c (List.mem_of_mem_drop member), ?_, ?_⟩
      · rw [ne_eq, List.take_eq_nil_iff, or_iff_left some]
        omega
      · rw [ne_eq, List.drop_eq_nil_iff]
        omega
      · rw [List.take_append_drop, List.length_drop]
        congr 3
        omega
    · rename_i large
      have zeros := digits_replicate (places - d.significantDigits.length)
      refine ⟨['0'], List.replicate (places - d.significantDigits.length) '0' ++ d.significantDigits, by simp,
        digits_replicate 1, by simp, digits_append_iff.mpr ⟨zeros, digits⟩, by simp [some], ?_⟩
      have joined : ['0'] ++ (List.replicate (places - d.significantDigits.length) '0' ++ d.significantDigits) =
          List.replicate (places - d.significantDigits.length + 1) '0' ++ d.significantDigits := by
        rw [← List.append_assoc, List.replicate_succ, List.singleton_append]
      rw [joined, digitsValue_zeros_append, List.length_append, List.length_replicate]
      congr 3
      omega

end Decimal

/-! ### Floats -/

namespace Token

theorem floatValue_pointed {minus whole fraction : List Char} (signed : minus = [] ∨ minus = ['-']) (digits : Digits whole) :
    floatValue (minus ++ whole ++ '.' :: fraction) =
      .ofDecimal (!minus.isEmpty) (digitsValue (whole ++ fraction)) (-(fraction.length : ℤ)) := by
  have cut := sign_pointed signed digits fraction
  have point := digits_append_of_stop digits (noDigit_point fraction)
  simp only [floatValue, cut, point, List.drop_succ_cons, List.drop_zero]

end Token

namespace Binary64

/-- The text of a finite double: a sign where it is negative, and digits around a point. -/
theorem canonical_eq {x : Binary64} (finite : x.isFinite = true) :
    x.canonical = (if x.negative then ['-'] else []) ++ (Decimal.shortest .up x).positional := by
  have number : x.isNaN = false := by
    rw [isFinite, bne_iff_ne] at finite
    simp [isNaN, finite]
  simp [canonical, number, finite]

/-- The text of a finite double is a float, and that double again, with its sign. -/
theorem canonical_reads_back {x : Binary64} (finite : x.isFinite = true) :
    IsFloat x.canonical ∧ floatValue x.canonical = x := by
  obtain ⟨whole, fraction, shown, digits, some, places, last, value⟩ := Decimal.positional_spec (Decimal.shortest .up x)
  have signed : (if x.negative then ['-'] else []) = [] ∨ (if x.negative then ['-'] else []) = ['-'] := by
    split <;> simp
  have sign : (!(if x.negative then ['-'] else []).isEmpty) = x.negative := by
    cases x.negative <;> rfl
  have back := Decimal.readsBack_shortest .up finite
  rw [Decimal.readsBack, beq_iff_eq] at back
  rw [canonical_eq finite, shown, ← List.append_assoc]
  refine ⟨?_, ?_⟩
  · exact .pointed signed digits places last
  · rw [floatValue_pointed signed digits, ofDecimal_congr _ value, ofDecimal_eq_ofMagnitude, back, sign,
      ofMagnitude_magnitude]

end Binary64

/-! ### Integers -/

namespace Decimal

theorem toDigits_leading {n : ℕ} (positive : 0 < n) :
    ∃ d ds, Nat.toDigits 10 n = d :: ds ∧ isLeadingDigit d = true ∧ Digits ds := by
  induction n using Nat.strongRecOn with
  | ind n ih =>
    by_cases small : n < 10
    · have leading : ∀ m < 10, 0 < m → isLeadingDigit m.digitChar = true := by decide
      exact ⟨n.digitChar, [], Nat.toDigits_of_lt_base small, leading n small positive, digits_nil⟩
    · obtain ⟨d, ds, shown, leading, digits⟩ := ih (n / 10) (by omega) (by omega)
      have last := digits_toDigits n
      rw [Nat.toDigits_of_base_le (by decide) (by omega), shown, List.cons_append] at last ⊢
      exact ⟨d, _, rfl, leading, (digits_cons.mp last).2⟩

end Decimal

theorem integerText_reads_back (i : ℤ) : IsInteger (integerText i) ∧ integerValue (integerText i) = i := by
  cases i with
  | ofNat n =>
    rw [integerText]
    by_cases zero : n = 0
    · subst zero
      exact ⟨.zero, by decide⟩
    · obtain ⟨d, ds, shown, leading, digits⟩ := Decimal.toDigits_leading (Nat.pos_of_ne_zero zero)
      have value := Decimal.digitsValue_toDigits n
      rw [shown] at value ⊢
      refine ⟨.positive leading digits, ?_⟩
      have plus : d ≠ '-' := ne_minus_of_digit (isDigit_of_leading leading)
      rw [integerValue, value]
      · rfl
      · simpa using plus
  | negSucc n =>
    obtain ⟨d, ds, shown, leading, digits⟩ := Decimal.toDigits_leading (Nat.succ_pos n)
    have value := Decimal.digitsValue_toDigits (n + 1)
    rw [integerText]
    rw [Nat.succ_eq_add_one] at shown
    rw [shown] at value ⊢
    refine ⟨.negative leading digits, ?_⟩
    rw [integerValue, value]
    omega

theorem AttributeIndex.canonical_reads_back (i : AttributeIndex) :
    IsAttributeIndex i.canonical ∧ i.toNat = digitsValue (i.canonical.drop 1) :=
  ⟨.mk (Decimal.digits_toDigits _) Nat.toDigits_ne_nil, (Decimal.digitsValue_toDigits _).symm⟩

end ChunkSelector
