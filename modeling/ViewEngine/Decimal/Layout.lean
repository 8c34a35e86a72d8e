import ViewEngine.Binary64.Shortest

/-!
# Decimal text of doubles

How shortest digits are laid out: positionally with a point, or with an exponent, depending on the
power of ten of the leading digit. Positional text always shows at least one digit after the point,
so the text of a double never looks like an integer.
-/

namespace ViewEngine

/-- When doubles are written positionally, and how ties between digits are settled. -/
structure Layout where
  /-- The least power of ten of the leading digit that is still written positionally, if any. -/
  lowest : Option Int
  /-- The greatest power of ten of the leading digit that is still written positionally. -/
  highest : Int
  tie : Tie

namespace Layout

/-- Digits with a point `places` digits from the right. -/
def withPoint (digits : List Char) (places : Nat) : List Char :=
  let padded := List.replicate (places + 1 - digits.length) '0' ++ digits
  padded.take (padded.length - places) ++ '.' :: padded.drop (padded.length - places)

/-- Positional text: `100.0`, `0.00125`. -/
def positional (d : Digits) : List Char :=
  let digits := Nat.toDigits 10 d.digits
  if 0 ≤ d.exponent then digits ++ List.replicate d.exponent.toNat '0' ++ ['.', '0']
  else withPoint digits (-d.exponent).toNat

/-- Text with an exponent, whose sign is always shown: `1e+16`, `1.5e-7`. -/
def scientific (d : Digits) (power : Int) : List Char :=
  let mantissa := match Nat.toDigits 10 d.digits with
    | first :: second :: rest => first :: '.' :: second :: rest
    | short => short
  let sign := if power < 0 then '-' else '+'
  mantissa ++ 'e' :: sign :: Nat.toDigits 10 power.natAbs

/-- The power of ten of the leading digit. -/
def leadingPower (d : Digits) : Int :=
  d.exponent + ((Nat.toDigits 10 d.digits).length - 1 : Nat)

/-- The text of a finite double. -/
def text (l : Layout) (d : Binary64) : List Char :=
  let digits := d.shortest l.tie
  let power := leadingPower digits
  let isLow := match l.lowest with
    | some lowest => decide (power < lowest)
    | none => false
  let magnitude :=
    if isLow || decide (l.highest < power) then scientific digits power else positional digits
  if d.negative then '-' :: magnitude else magnitude

/-- Doubles in JSON text: positional from `0.00001` up to, and not including, `1e+16`. -/
def json : Layout := ⟨some (-5), 15, .toEven⟩

/-- Doubles in text shown to a reader: positional below `1e+16`, however small. -/
def shown : Layout := ⟨none, 15, .up⟩

end Layout

namespace Binary64

/-- The text of a double bound into text. -/
def shownText (d : Binary64) : String :=
  if d.isNaN then "nan"
  else if d.isFinite then String.ofList (Layout.shown.text d)
  else if d.negative then "-inf" else "inf"

end Binary64

end ViewEngine
