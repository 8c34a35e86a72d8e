/-!
# Calendar dates

The Gregorian calendar, extended to all years, with days numbered from the first of January of the
year zero. Years before it are negative.
-/

namespace ViewEngine.Calendar

def isLeap (year : Int) : Bool :=
  year % 4 = 0 && (year % 100 != 0 || year % 400 = 0)

/-- The number of days before the first of January of a year. -/
def daysBefore (year : Int) : Int :=
  365 * year + (year + 3) / 4 - (year + 99) / 100 + (year + 399) / 400

/-- The year of a day. -/
def yearOf (day : Int) : Int :=
  let guess := day * 400 / 146097
  if day < daysBefore guess then guess - 1
  else if daysBefore (guess + 1) ≤ day then guess + 1
  else guess

/-- The lengths of the months of a year. -/
def monthLengths (year : Int) : List Nat :=
  [31, if isLeap year then 29 else 28, 31, 30, 31, 30, 31, 31, 30, 31, 30, 31]

/-- The month and day of month, both from zero, of a day of the year, counted from zero. -/
def locate : List Nat → Nat → Nat × Nat
  | [], day => (0, day)
  | length :: rest, day =>
    if day < length then (0, day)
    else
      let (month, day) := locate rest (day - length)
      (month + 1, day)

/-- The number of days in a month, counted from one; none of a month there is not. -/
def daysIn (year : Int) (month : Nat) : Nat :=
  if month = 0 then 0 else (monthLengths year).getD (month - 1) 0

/-- The number of a date's day, month and day counted from one. -/
def dayNumber (year : Int) (month day : Nat) : Int :=
  daysBefore year + (((monthLengths year).take (month - 1)).foldl (· + ·) (day - 1) : Nat)

/-- The number of the first of January 1970. -/
def epoch : Int := 719528

/-- A date and time of day as read off a clock. -/
structure ClockTime where
  year : Int
  /-- From one to twelve. -/
  month : Nat
  day : Nat
  /-- The day of the year, from one. -/
  ordinal : Nat
  /-- From Monday, which is zero. -/
  weekday : Nat
  hour : Nat
  minute : Nat
  second : Nat
  nanosecond : Nat
deriving DecidableEq, Repr

/-- A point in time: whole seconds since the start of 1970 in UTC, and nanoseconds. -/
structure Instant where
  seconds : Int
  nanosecond : Nat
deriving DecidableEq, Repr

/-- What a clock `offset` seconds ahead of UTC shows at an instant. -/
def Instant.clockTime (i : Instant) (offset : Int) : ClockTime :=
  let seconds := i.seconds + offset
  let day := seconds / 86400 + epoch
  let inDay := (seconds % 86400).toNat
  let year := yearOf day
  let ordinal := (day - daysBefore year).toNat
  let (month, dayOfMonth) := locate (monthLengths year) ordinal
  { year
    month := month + 1
    day := dayOfMonth + 1
    ordinal := ordinal + 1
    weekday := ((day + 5) % 7).toNat
    hour := inDay / 3600
    minute := inDay / 60 % 60
    second := inDay % 60
    nanosecond := i.nanosecond }

/-- The last year that the calendar can show; the first is its negative. -/
def lastYear : Int := 9999

end ViewEngine.Calendar
