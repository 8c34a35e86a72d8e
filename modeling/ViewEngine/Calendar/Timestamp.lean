import ViewEngine.Calendar.Date
import ViewEngine.Decimal.Reader
import ViewEngine.Text.Split

/-!
# Timestamps

Internet date-times: `2024-01-15T10:30:00Z`, with any ASCII character between date and time, any
number of fraction digits (those after the ninth do not count), and an offset from UTC in place of `Z`.
A sixtieth second is a leap second: it is read as the last nanosecond before it, and only at the end
of a UTC month.
-/

namespace ViewEngine.Calendar

/-- A date and time as written, with its offset from UTC in seconds. -/
structure Timestamp where
  year : Nat
  month : Nat
  day : Nat
  hour : Nat
  minute : Nat
  /-- Up to sixty. -/
  second : Nat
  nanosecond : Nat
  offset : Int

namespace Timestamp

/-- Exactly `count` digits, and what follows. -/
def digits? (count : Nat) (cs : List Char) : Option (Nat × List Char) :=
  let ds := cs.take count
  if ds.length = count ∧ ds.all Char.isDigit then some (digitsValue ds, cs.drop count) else none

/-- The fraction of a second, in nanoseconds, if there is one. -/
def fraction? : List Char → Option (Nat × List Char)
  | '.' :: rest =>
    let ds := rest.takeWhile Char.isDigit
    if ds = [] then none
    else some (digitsValue ((ds ++ List.replicate 9 '0').take 9), rest.dropWhile Char.isDigit)
  | cs => some (0, cs)

/-- The offset from UTC, in seconds, which ends the text. -/
def offset? : List Char → Option Int
  | [] => none
  | sign :: rest =>
    if sign = 'Z' ∨ sign = 'z' then if rest = [] then some 0 else none
    else if sign = '+' ∨ sign = '-' then do
      let (hours, rest) ← digits? 2 rest
      let rest ← dropStart? [':'] rest
      let (minutes, rest) ← digits? 2 rest
      if hours ≤ 23 ∧ minutes ≤ 59 ∧ rest = [] then
        let offset : Int := (hours * 3600 + minutes * 60 : Nat)
        some (if sign = '-' then -offset else offset)
      else none
    else none

/-- The character between date and time, which may be any that takes one byte. -/
def separator? : List Char → Option (List Char)
  | c :: rest => if c.toNat < 128 then some rest else none
  | [] => none

/-- The parts of a timestamp, before any check that there is such a date and time. -/
def parts? (cs : List Char) : Option Timestamp := do
  let (year, cs) ← digits? 4 cs
  let cs ← dropStart? ['-'] cs
  let (month, cs) ← digits? 2 cs
  let cs ← dropStart? ['-'] cs
  let (day, cs) ← digits? 2 cs
  let cs ← separator? cs
  let (hour, cs) ← digits? 2 cs
  let cs ← dropStart? [':'] cs
  let (minute, cs) ← digits? 2 cs
  let cs ← dropStart? [':'] cs
  let (second, cs) ← digits? 2 cs
  let (nanosecond, cs) ← fraction? cs
  let offset ← offset? cs
  pure { year, month, day, hour, minute, second, nanosecond, offset }

/-- There is such a date and time of day; the second may be the sixtieth. -/
def isPossible (t : Timestamp) : Bool :=
  decide (1 ≤ t.day ∧ t.day ≤ daysIn t.year t.month ∧ t.hour ≤ 23 ∧ t.minute ≤ 59 ∧ t.second ≤ 60)

/-- The instant, a sixtieth second read as the last nanosecond before it. -/
def instant (t : Timestamp) : Instant :=
  let day := dayNumber t.year t.month t.day - epoch
  let inDay : Int := (t.hour * 3600 + t.minute * 60 + min t.second 59 : Nat)
  { seconds := day * 86400 + inDay - t.offset
    nanosecond := if t.second = 60 then 999999999 else t.nanosecond }

/-- In UTC, the last second of a month of a year that the calendar can show. -/
def endsMonth (i : Instant) : Bool :=
  let c := i.clockTime 0
  decide (c.hour = 23 ∧ c.minute = 59 ∧ c.second = 59 ∧ c.day = daysIn c.year c.month
    ∧ c.year ≤ lastYear)

end Timestamp

/-- The instant that a timestamp denotes. -/
def readTimestamp? (cs : List Char) : Option Instant := do
  let t ← Timestamp.parts? cs
  if t.isPossible && (t.second != 60 || Timestamp.endsMonth t.instant) then some t.instant else none

end ViewEngine.Calendar
