import ChunkSelector.Number.Binary64

/-!
# Shortest decimals

`shortest` finds the decimal with the fewest digits that reads back as a given double and,
of several with that many digits, the nearest one. "Reads back" is `Binary64.ofDecimal` itself.
-/

namespace ChunkSelector

/-- `digits * 10 ^ exponent`. -/
structure Decimal where
  digits : Nat
  exponent : Int
  deriving DecidableEq

/-- Which of two equally near decimals is taken. -/
inductive Tie where
  | up
  | even
  deriving DecidableEq

namespace Decimal

/-- The decimal equal to a finite double, without its sign. -/
def exact (x : Binary64) : Decimal :=
  ⟨x.significand <<< x.exponent.toNat * Nat.pow 5 (-x.exponent).toNat, min x.exponent 0⟩

/-- The decimal rounds to the double, its sign left out. -/
def readsBack (x : Binary64) (d : Decimal) : Bool :=
  (Binary64.ofDecimal false d.digits d.exponent).magnitude == x.magnitude

/-- The lower of two neighbours is the one to take: the nearer, or in a tie the one that
`tie` names. The value lies `remainder / unit` above `low`. -/
def takesLower (tie : Tie) (low remainder unit : Nat) : Bool :=
  2 * remainder < unit || (2 * remainder == unit && tie == .even && low % 2 == 0)

/-- The decimal for `x` with the last `dropped` digits of `whole` given up, if one of the two
neighbours with that many digits reads back. -/
def withoutLast (tie : Tie) (x : Binary64) (whole : Decimal) (dropped : Nat) : Option Decimal :=
  let unit := Nat.pow 10 dropped
  let exponent := whole.exponent + dropped
  let lower : Decimal := ⟨whole.digits / unit, exponent⟩
  let upper : Decimal := ⟨whole.digits / unit + 1, exponent⟩
  match readsBack x lower, readsBack x upper with
  | true, true =>
    some (if takesLower tie lower.digits (whole.digits % unit) unit then lower else upper)
  | true, false => some lower
  | false, true => some upper
  | false, false => none

/-- The first hit among `dropped`, `dropped - 1`, …, `1` digits given up, else `whole`. -/
def search (tie : Tie) (x : Binary64) (whole : Decimal) : Nat → Decimal
  | 0 => whole
  | dropped + 1 =>
    (withoutLast tie x whole (dropped + 1)).getD (search tie x whole dropped)

/-- The shortest decimal that reads back as the finite double `x`, its sign left out. -/
def shortest (tie : Tie) (x : Binary64) : Decimal :=
  let whole := exact x
  search tie x whole ((Nat.toDigits 10 whole.digits).length - 1)

end Decimal

end ChunkSelector
