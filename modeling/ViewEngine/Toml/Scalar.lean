import ViewEngine.Calendar.Timestamp
import ViewEngine.Text.Hexadecimal
import ViewEngine.Toml.Basic

/-!
# Bare TOML values

Booleans, numbers, dates and times, which stand without quotes. Digits may be grouped by single
underscores. Integers have 64 bits; a float that is too large is refused.
-/

namespace ViewEngine.Toml

/-- Digits grouped by single underscores, without these. -/
def ungroup? (isDigit : Char → Bool) : List Char → Option (List Char)
  | [] => none
  | [c] => if isDigit c then some [c] else none
  | c :: '_' :: rest => if isDigit c then (ungroup? isDigit rest).map (c :: ·) else none
  | c :: rest => if isDigit c then (ungroup? isDigit rest).map (c :: ·) else none

/-- A whole number in decimal, without its sign: no zero stands before other digits. -/
def wholeDigits? (cs : List Char) : Option (List Char) :=
  match ungroup? Char.isDigit cs with
  | some ('0' :: _ :: _) => none
  | ds => ds

/-- A whole number in a base up to sixteen. -/
def readBase? (base : Nat) (cs : List Char) : Option Nat :=
  let isDigit (c : Char) : Bool := (hexValue? c).any (· < base)
  (ungroup? isDigit cs).map fun ds => ds.foldl (fun n c => base * n + (hexValue? c).getD 0) 0

/-- An integer of any size. -/
def readInteger? : List Char → Option Int
  | '0' :: 'x' :: cs => (readBase? 16 cs).map Int.ofNat
  | '0' :: 'o' :: cs => (readBase? 8 cs).map Int.ofNat
  | '0' :: 'b' :: cs => (readBase? 2 cs).map Int.ofNat
  | cs =>
    let (negative, cs) := splitSign cs
    (wholeDigits? cs).map fun ds => if negative then -(digitsValue ds : Int) else digitsValue ds

/-- The text after the whole part of a float, with its digits ungrouped. -/
def fractionText? (cs : List Char) : Option (List Char) :=
  let (fraction, exponent) := cs.span fun c => c ≠ 'e' && c ≠ 'E'
  let fraction? := match fraction with
    | [] => some []
    | '.' :: ds => (ungroup? Char.isDigit ds).map ('.' :: ·)
    | _ => none
  let exponent? := match exponent with
    | [] => some []
    | mark :: '+' :: ds => (ungroup? Char.isDigit ds).map (mark :: ·)
    | mark :: '-' :: ds => (ungroup? Char.isDigit ds).map fun ds => mark :: '-' :: ds
    | mark :: ds => (ungroup? Char.isDigit ds).map (mark :: ·)
  return (← fraction?) ++ (← exponent?)

/-- A float: a numeral with a point or an exponent, or the name of a number that is not finite. -/
def readFloat? (cs : List Char) : Option Binary64 :=
  let (negative, magnitude) := splitSign cs
  if magnitude = ['i', 'n', 'f'] ∨ magnitude = ['n', 'a', 'n'] then readBinary64? cs
  else do
    let (whole, rest) := magnitude.span fun c => c ≠ '.' && c ≠ 'e' && c ≠ 'E'
    let numeral := (← wholeDigits? whole) ++ (← fractionText? rest)
    let d ← readBinary64? (if negative then '-' :: numeral else numeral)
    if d.isFinite || negative then some d else none

open Calendar (Timestamp daysIn) in
/-- A date, `yyyy-mm-dd`, and what follows it. -/
def dropDate? (cs : List Char) : Option (List Char) := do
  let (year, cs) ← Timestamp.digits? 4 cs
  let cs ← dropStart? ['-'] cs
  let (month, cs) ← Timestamp.digits? 2 cs
  let cs ← dropStart? ['-'] cs
  let (day, cs) ← Timestamp.digits? 2 cs
  if 1 ≤ day ∧ day ≤ daysIn year month then some cs else none

open Calendar (Timestamp) in
/-- A time of day, `hh:mm:ss` with or without a fraction, and what follows it. -/
def dropTime? (cs : List Char) : Option (List Char) := do
  let (hour, cs) ← Timestamp.digits? 2 cs
  let cs ← dropStart? [':'] cs
  let (minute, cs) ← Timestamp.digits? 2 cs
  let cs ← dropStart? [':'] cs
  let (second, cs) ← Timestamp.digits? 2 cs
  let (_, cs) ← Timestamp.fraction? cs
  if hour ≤ 23 ∧ minute ≤ 59 ∧ second ≤ 60 then some cs else none

/-- A date, a time of day, or both with or without an offset. -/
def isDateTime (cs : List Char) : Bool :=
  match dropDate? cs with
  | some [] => true
  | some (separator :: rest) =>
    (separator = 'T' || separator = 't' || separator = ' ') &&
      match dropTime? rest with
      | some [] => true
      | some offset => (Calendar.Timestamp.offset? offset).isSome
      | none => false
  | none => dropTime? cs = some []

/-- The value of a bare text. -/
def ofBare? (cs : List Char) : Option Toml :=
  if cs = "true".toList then some (boolean true)
  else if cs = "false".toList then some (boolean false)
  else if isDateTime cs then some (dateTime (String.ofList cs))
  else match readInteger? cs with
    | some i => (int64? i).map integer
    | none =>
      if cs.any fun c => c = '.' || c = 'e' || c = 'E' || c = 'n' then (readFloat? cs).map float
      else none

end ViewEngine.Toml
