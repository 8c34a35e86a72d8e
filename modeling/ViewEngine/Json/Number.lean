import ViewEngine.Decimal.Reader

/-!
# Reading JSON numbers

A JSON number that is not kept as an integer is a double. Which double is settled by a `NumberReader`, so
that what is said of JSON text can be said of any reader. Two are given here: `NumberReader.exact` rounds
once, and the instance, which the program runs with, goes stepwise. It keeps the digits that fit 64
bits, rounds them to a double, and multiplies or divides that by a power of ten, which rounds again. So a
number of many digits may be read as a neighbour of the nearest double: `100.00000000000001` is read as
`100.0`.
-/

namespace ViewEngine

/-- A way to read numerals as doubles. -/
class NumberReader where
  /-- The double that a numeral is read as, infinite if it is out of range. -/
  read : List Char → Binary64

/-- The reader that gives the nearest double. -/
@[reducible]
def NumberReader.exact : NumberReader where
  read numeral := ((Decimal.read? numeral).map Decimal.nearest).getD .nan

namespace Stepwise

/-- Appends digits to a number as long as it stays below `2 ^ 64`: the number, and the text that is left. -/
def takeDigits (n : Nat) : List Char → Nat × List Char
  | [] => (n, [])
  | c :: cs =>
    let next := 10 * n + (c.toNat - '0'.toNat)
    if c.isDigit ∧ next < UInt64.size then takeDigits next cs else (n, c :: cs)

/-- The digits of a numeral without its sign as a number, the power of ten that belongs to it, and the
exponent part. A digit that no longer fits counts toward the power of ten before the point, and is skipped
after it. -/
def significand (cs : List Char) : Nat × Int × List Char :=
  let (whole, rest) := takeDigits 0 cs
  let skipped := (rest.takeWhile Char.isDigit).length
  match rest.dropWhile Char.isDigit with
  | '.' :: fraction =>
    let (digits, rest) := takeDigits whole fraction
    (digits, skipped - (fraction.length - rest.length : Nat), rest.dropWhile Char.isDigit)
  | rest => (whole, skipped, rest)

/-- The greatest power of ten that is a finite double has this exponent. -/
def maxPower : Nat := 308

/-- The double nearest to a power of ten. -/
def powerOfTen (exponent : Nat) : Binary64 := .ofQuotient false (Nat.pow 10 exponent) 1

/-- Divides by the greatest power of ten a number of times, or until nothing is left, and then by a last
one. -/
def shrink (last : Nat) : Nat → Binary64 → Binary64
  | 0, d => d.div (powerOfTen last)
  | rounds + 1, d => if d.rank = 0 then d else shrink last rounds (d.div (powerOfTen maxPower))

/-- A whole number times a power of ten. -/
def scale (digits : Nat) (power : Int) : Binary64 :=
  let d := Binary64.ofQuotient false digits 1
  if power < 0 then
    let rounds := (power.natAbs - 1) / maxPower
    shrink (power.natAbs - rounds * maxPower) rounds d
  else if power ≤ maxPower then d.mul (powerOfTen power.toNat)
  else if d.rank = 0 then d
  else .infinity

/-- The double that a numeral is read as. -/
def read (numeral : List Char) : Binary64 :=
  let (negative, magnitude) := splitSign numeral
  let (digits, power, rest) := significand magnitude
  { scale digits (power + (Decimal.readExponent? rest).getD 0) with negative }

end Stepwise

instance : NumberReader := ⟨Stepwise.read⟩

end ViewEngine
