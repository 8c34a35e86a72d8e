import ViewEngine.Binary64.Nearest

/-!
# Shortest digits

The fewest decimal digits that read back as a given double. Around a magnitude lies the interval of
numbers for which it is the nearest double; its ends belong to it when the significand is even. For
one digit, two digits and so on, the two neighbours of the magnitude on that decimal grid are tested
against the interval; the first grid with a neighbour inside gives the answer, the nearer neighbour if
both are.

A magnitude is a multiple of `2 ^ (-1074)`, hence of `10 ^ (-1074)`, so all is done with integers.
-/

namespace ViewEngine

/-- A decimal magnitude `digits * 10 ^ exponent`. -/
structure Digits where
  digits : Nat
  exponent : Int
deriving DecidableEq, Repr

/-- Which of two equally near neighbours is taken. -/
inductive Tie where
  /-- The one whose last digit is even. -/
  | toEven
  /-- The larger one. -/
  | up
deriving DecidableEq, Repr

/-- Drops zeros from the end of the digits, at most `fuel` of them. -/
def Digits.strip : Nat → Digits → Digits
  | 0, d => d
  | fuel + 1, d =>
    if d.digits % 10 = 0 then strip fuel ⟨d.digits / 10, d.exponent + 1⟩ else d

namespace Binary64

/-- How many units of `10 ^ (-1074)` make one unit of `2 ^ (-1074)`. -/
def decimalUnits : Nat := Nat.pow 5 1074

/-- The interval of numbers that read as the magnitude of this rank, in quarters of `10 ^ (-1074)`.
Below the first magnitude of a scale the spacing is half as wide. -/
def interval (rank : Nat) : Nat × Nat :=
  let spacing := 1 <<< scaleOf rank
  let isFirst := 0 < scaleOf rank ∧ significandOf rank = ranksPerScale
  let below := if isFirst then spacing else 2 * spacing
  ((4 * unitsOf rank - below) * decimalUnits, (4 * unitsOf rank + 2 * spacing) * decimalUnits)

/-- A number, in the units of `interval`, reads as the magnitude of this rank. -/
def readsAs (rank : Nat) (quarters : Nat) : Bool :=
  let (low, high) := interval rank
  if significandOf rank % 2 = 0 then decide (low ≤ quarters ∧ quarters ≤ high)
  else decide (low < quarters ∧ quarters < high)

end Binary64

/-! ## Grids

The search takes the test as an argument: it is the same whatever the interval. Numbers are in units
of `10 ^ (-1074)`, and the test takes quarters of them. -/

/-- The neighbour of `exact` on the grid of multiples of `step` that passes the test. -/
def onGrid? (tie : Tie) (reads : Nat → Bool) (exact step : Nat) : Option Nat :=
  let lower := exact / step
  let isIn (c : Nat) : Bool := reads (4 * (c * step))
  let toLower := exact - lower * step
  let toUpper := (lower + 1) * step - exact
  match isIn lower, isIn (lower + 1) with
  | true, false => some lower
  | false, true => some (lower + 1)
  | false, false => none
  | true, true =>
    if toLower < toUpper then some lower
    else if toUpper < toLower then some (lower + 1)
    else match tie with
      | .up => some (lower + 1)
      | .toEven => some (if lower % 2 = 0 then lower else lower + 1)

/-- Tries grids of `count` digits and more, at most `fuel` of them, for a number of `places` decimal
digits; then the number itself. -/
def firstGrid (tie : Tie) (reads : Nat → Bool) (exact places : Nat) : Nat → Nat → Digits
  | 0, _ => ⟨exact, -1074⟩
  | fuel + 1, count =>
    match onGrid? tie reads exact (Nat.pow 10 (places - count)) with
    | some c => ⟨c, (places - count : Nat) - 1074⟩
    | none => firstGrid tie reads exact places fuel (count + 1)

namespace Binary64

/-- The fewest digits that read back as the magnitude of a finite double; seventeen always do. -/
def shortest (tie : Tie) (d : Binary64) : Digits :=
  if d.rank = 0 then ⟨0, 0⟩
  else
    let exact := unitsOf d.rank * decimalUnits
    let places := (Nat.toDigits 10 exact).length
    (firstGrid tie (readsAs d.rank) exact places 17 1).strip 17

end Binary64

end ViewEngine
