import ViewEngine.Binary64.Nearest

/-!
# Reading numbers

Decimal numerals as authored in documents, conditions and parameters. An integer is an optional sign
and digits; a double may have a point, with digits on at least one side, and an exponent, or be
`inf`, `infinity` or `nan` in any case. Nothing else may surround them. Doubles are read exactly and
rounded once.
-/

namespace ViewEngine

/-- The number written by a list of decimal digits. -/
def digitsValue (ds : List Char) : Nat := Nat.ofDigitChars 10 ds 0

/-- Splits off a leading sign; true stands for minus. -/
def splitSign : List Char → Bool × List Char
  | '-' :: rest => (true, rest)
  | '+' :: rest => (false, rest)
  | rest => (false, rest)

/-- A list of one or more decimal digits, as a number. -/
def readDigits? (cs : List Char) : Option Nat :=
  if cs ≠ [] ∧ cs.all Char.isDigit then some (digitsValue cs) else none

/-- A whole number below `bound`: an optional plus and digits. -/
def readNatBelow? (bound : Nat) (cs : List Char) : Option Nat :=
  let digits := match cs with
    | '+' :: rest => rest
    | _ => cs
  (readDigits? digits).bind fun n => if n < bound then some n else none

/-- The 64-bit integer that is equal to an integer, if there is one. -/
def int64? (i : Int) : Option Int64 :=
  if Int64.minValue.toInt ≤ i ∧ i ≤ Int64.maxValue.toInt then some (Int64.ofInt i) else none

/-- An integer that fits 64 bits: an optional sign and digits. -/
def readInt64? (cs : List Char) : Option Int64 :=
  let (negative, digits) := splitSign cs
  (readDigits? digits).bind fun n => int64? (if negative then -n else n)

/-- A signed decimal number `digits * 10 ^ exponent`. -/
structure Decimal where
  negative : Bool
  digits : Nat
  exponent : Int
deriving DecidableEq, Repr

namespace Decimal

/-- The exponent part of a numeral: nothing, or `e` and a signed whole number. -/
def readExponent? : List Char → Option Int
  | [] => some 0
  | c :: rest =>
    if c = 'e' ∨ c = 'E' then
      let (negative, digits) := splitSign rest
      (readDigits? digits).map fun n => if negative then -(n : Int) else n
    else none

/-- A numeral without its sign. -/
def readMagnitude? (negative : Bool) (cs : List Char) : Option Decimal :=
  let whole := cs.takeWhile Char.isDigit
  let afterWhole := cs.dropWhile Char.isDigit
  let (fraction, afterFraction) := match afterWhole with
    | '.' :: rest => (rest.takeWhile Char.isDigit, rest.dropWhile Char.isDigit)
    | _ => ([], afterWhole)
  if whole ++ fraction = [] then none
  else (readExponent? afterFraction).map fun e =>
    { negative, digits := digitsValue (whole ++ fraction), exponent := e - fraction.length }

/-- The decimal number that a numeral denotes. -/
def read? (cs : List Char) : Option Decimal :=
  let (negative, magnitude) := splitSign cs
  readMagnitude? negative magnitude

/-- The rank of the double nearest to the magnitude. Magnitudes from `10 ^ 310` on are infinite and
those below `10 ^ (-330)` are zero whatever their digits, so no large power is ever formed. -/
def nearestRank (d : Decimal) : Nat :=
  if d.digits = 0 then 0
  else
    let top : Int := d.exponent + (Nat.toDigits 10 d.digits).length
    if 310 < top then Binary64.infinityRank
    else if top < -330 then 0
    else if 0 ≤ d.exponent then Binary64.nearestRank (d.digits * Nat.pow 10 d.exponent.toNat) 1
    else Binary64.nearestRank d.digits (Nat.pow 10 (-d.exponent).toNat)

/-- The double nearest to a decimal number. -/
def nearest (d : Decimal) : Binary64 := Binary64.ofRank d.negative d.nearestRank

end Decimal

/-- A double: a decimal numeral, or a name of infinity or of what is not a number. -/
def readBinary64? (cs : List Char) : Option Binary64 :=
  let (negative, magnitude) := splitSign cs
  let name := magnitude.map Char.toLower
  if name = ['i', 'n', 'f'] ∨ name = "infinity".toList then
    some (Binary64.ofRank negative Binary64.infinityRank)
  else if name = ['n', 'a', 'n'] then some { Binary64.nan with negative }
  else (Decimal.read? cs).map Decimal.nearest

end ViewEngine
