import ViewEngine.Calendar.Date

/-!
# Date patterns

Patterns such as `yyyy-MM-dd` or `EEEE h:mm a`. Runs of one letter are fields; text in single quotes
stands for itself and a doubled quote for one quote, in and out of quotes. Letters without a meaning
stand for themselves too. `Pattern.items` reads a pattern, `Item.text` writes one item of it.
-/

namespace ViewEngine.Calendar

namespace Pattern

/-- A part of a pattern. -/
inductive Item where
  | literal (c : Char)
  /-- A letter written `run` times. -/
  | field (letter : Char) (run : Nat)
deriving DecidableEq, Repr

/-- Adds a letter before the items that follow it. -/
def consLetter (c : Char) : List Item → List Item
  | .field d run :: items =>
    if d = c then .field c (run + 1) :: items else .field c 1 :: .field d run :: items
  | items => .field c 1 :: items

mutual

/-- The items of a pattern. -/
def items : List Char → List Item
  | [] => []
  | '\'' :: '\'' :: rest => .literal '\'' :: items rest
  | '\'' :: rest => quotedItems rest
  | c :: rest => if c.isAlpha then consLetter c (items rest) else .literal c :: items rest

/-- The items of a pattern after an opening quote, which may stay open. -/
def quotedItems : List Char → List Item
  | [] => []
  | '\'' :: '\'' :: rest => .literal '\'' :: quotedItems rest
  | '\'' :: rest => items rest
  | c :: rest => .literal c :: quotedItems rest

end

/-- Digits with zeros before them up to a width. -/
def padded (width n : Nat) : List Char :=
  let digits := Nat.toDigits 10 n
  List.replicate (width - digits.length) '0' ++ digits

/-- A year, whose sign counts toward the width. -/
def yearText (width : Nat) (year : Int) : List Char :=
  if year < 0 then '-' :: padded (width - 1) year.natAbs else padded width year.natAbs

def months : List String :=
  ["January", "February", "March", "April", "May", "June", "July", "August", "September", "October",
    "November", "December"]

def weekdays : List String :=
  ["Monday", "Tuesday", "Wednesday", "Thursday", "Friday", "Saturday", "Sunday"]

/-- A name at the given length: abbreviated, in full, or its initial. -/
def nameText (run : Nat) (name : String) : List Char :=
  if run ≤ 3 then name.toList.take 3 else if run = 4 then name.toList else name.toList.take 1

/-- How many of the nine digits of a fraction a run shows. -/
def fractionDigits (run : Nat) : Nat := min run 9

/-- The fraction of a second to `run` digits. -/
def fractionText (run nanosecond : Nat) : List Char :=
  (padded 9 nanosecond).take (fractionDigits run) ++ List.replicate (run - fractionDigits run) '0'

/-- The text of a field. The zone is always shown as that of UTC. -/
def fieldText (t : ClockTime) (letter : Char) (run : Nat) : List Char :=
  match letter with
  | 'y' => if run = 2 then padded 2 (t.year % 100).toNat else yearText run t.year
  | 'M' | 'L' =>
    if run ≤ 2 then padded run t.month else nameText run (months.getD (t.month - 1) "")
  | 'd' => padded run t.day
  | 'D' => padded run t.ordinal
  | 'E' => nameText run (weekdays.getD t.weekday "")
  | 'H' => padded run t.hour
  | 'h' => padded run (if t.hour % 12 = 0 then 12 else t.hour % 12)
  | 'm' => padded run t.minute
  | 's' => padded run t.second
  | 'S' => fractionText run t.nanosecond
  | 'a' => if t.hour < 12 then ['A', 'M'] else ['P', 'M']
  | 'Z' => if run < 5 then "+0000".toList else ['Z']
  | 'X' | 'x' => ['Z']
  | other => List.replicate run other

/-- The text of an item. -/
def Item.text (t : ClockTime) : Item → List Char
  | .literal c => [c]
  | .field letter run => fieldText t letter run

end Pattern

/-- A date and time written by a pattern. -/
def format (t : ClockTime) (pattern : List Char) : List Char :=
  (Pattern.items pattern).flatMap (Pattern.Item.text t)

end ViewEngine.Calendar
