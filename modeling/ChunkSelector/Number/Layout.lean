import ChunkSelector.Number.Shortest

/-!
# Layouts of a decimal

`positional` writes a decimal with a point and no exponent, `scientific` with one digit
before the point and a signed exponent. Both leave out zeros at the end.
-/

namespace ChunkSelector.Decimal

/-- The digits of a decimal without the zeros at their end. A zero keeps one digit. -/
def significantDigits (d : Decimal) : List Char :=
  if d.digits = 0 then ['0']
  else ((Nat.toDigits 10 d.digits).reverse.dropWhile (· == '0')).reverse

/-- The power of ten of the last significant digit. -/
def lastPlace (d : Decimal) : Int :=
  if d.digits = 0 then 0
  else d.exponent + ((Nat.toDigits 10 d.digits).length - d.significantDigits.length : Nat)

/-- The power of ten of the first significant digit. -/
def firstPlace (d : Decimal) : Int :=
  d.lastPlace + d.significantDigits.length - 1

/-- Positional text, with at least one digit on each side of the point. -/
def positional (d : Decimal) : List Char :=
  let digits := d.significantDigits
  let places := (-d.lastPlace).toNat
  if 0 ≤ d.lastPlace then digits ++ List.replicate d.lastPlace.toNat '0' ++ ['.', '0']
  else if places < digits.length then
    digits.take (digits.length - places) ++ '.' :: digits.drop (digits.length - places)
  else '0' :: '.' :: (List.replicate (places - digits.length) '0' ++ digits)

/-- Scientific text: a point only before further digits, and always a sign in the exponent. -/
def scientific (d : Decimal) : List Char :=
  let mantissa := match d.significantDigits with
    | first :: second :: more => first :: '.' :: second :: more
    | digits => digits
  let sign := if d.firstPlace < 0 then '-' else '+'
  mantissa ++ 'e' :: sign :: Nat.toDigits 10 d.firstPlace.natAbs

end ChunkSelector.Decimal
