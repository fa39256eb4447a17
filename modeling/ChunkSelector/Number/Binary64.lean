/-!
# Binary64 numbers

A `Binary64` is the 64-bit word of a double. A finite word stands for
`significand * 2 ^ exponent`, and `ofRatio` rounds an exact ratio to the nearest
word, a tie going to the even significand. All arithmetic is exact, in `Nat` and `Int`.
-/

namespace ChunkSelector

/-- A double, as its word. Every word is kept apart, also the words of NaN. -/
structure Binary64 where
  bits : UInt64
  deriving DecidableEq

namespace Binary64

/-! ### Reading a word -/

/-- The weight of the sign bit, `2 ^ 63`. -/
def signWeight : Nat := 0x8000000000000000

/-- The weight of the lowest exponent bit, `2 ^ 52`. -/
def exponentWeight : Nat := 0x10000000000000

def negative (x : Binary64) : Bool := x.bits.toNat / signWeight == 1

/-- The word without its sign bit. -/
def magnitude (x : Binary64) : Nat := x.bits.toNat % signWeight

/-- The biased exponent, `2047` for the infinities and NaN. -/
def biased (x : Binary64) : Nat := x.magnitude / exponentWeight

def fraction (x : Binary64) : Nat := x.magnitude % exponentWeight

def isFinite (x : Binary64) : Bool := x.biased != 2047

def isNaN (x : Binary64) : Bool := x.biased == 2047 && x.fraction != 0

/-- The whole significand: a normal word has a leading one that it does not store. -/
def significand (x : Binary64) : Nat :=
  if x.biased = 0 then x.fraction else exponentWeight + x.fraction

/-- The power of two that the significand counts. -/
def exponent (x : Binary64) : Int := (max x.biased 1 : Nat) - 1075

/-- Two doubles are the same number: NaN is the same as nothing, and both zeros are one number. -/
def sameNumber (x y : Binary64) : Bool :=
  !x.isNaN && !y.isNaN && (x.bits == y.bits || (x.magnitude == 0 && y.magnitude == 0))

instance : BEq Binary64 := ⟨sameNumber⟩

/-! ### Rounding to a word -/

/-- The word of a sign and a magnitude. -/
def ofMagnitude (negative : Bool) (magnitude : Nat) : Binary64 :=
  ⟨(if negative then signWeight + magnitude else magnitude).toUInt64⟩

def infinity : Nat := 2047 * exponentWeight

/-- `num / den` to the nearest natural number, a tie going to the even one. -/
def roundDiv (num den : Nat) : Nat :=
  let quotient := num / den
  let twice := 2 * (num % den)
  if twice < den then quotient
  else if den < twice then quotient + 1
  else quotient + quotient % 2

/-- The greatest `e` with `2 ^ e ≤ num / den`, for a positive ratio. -/
def floorLog2 (num den : Nat) : Int :=
  let e : Int := (Nat.log2 num : Int) - Nat.log2 den
  if den <<< e.toNat ≤ num <<< (-e).toNat then e else e - 1

/-- The double nearest to `num / den`, or an infinity where the doubles end. The word counts
significands from zero upward, so a significand that rounds up to `2 ^ 53` carries by itself. -/
def ofRatio (negative : Bool) (num den : Nat) : Binary64 :=
  if num = 0 then ofMagnitude negative 0
  else
    let q := max (-1074) (floorLog2 num den - 52)
    let significand := roundDiv (num <<< (-q).toNat) (den <<< q.toNat)
    ofMagnitude negative (min infinity (significand + (q + 1074).toNat * exponentWeight))

/-- The double nearest to `digits * 10 ^ exponent`. -/
def ofDecimal (negative : Bool) (digits : Nat) (exponent : Int) : Binary64 :=
  ofRatio negative (digits * Nat.pow 10 exponent.toNat) (Nat.pow 10 (-exponent).toNat)

def ofInt (n : Int) : Binary64 := ofRatio (n < 0) n.natAbs 1

end Binary64

end ChunkSelector
