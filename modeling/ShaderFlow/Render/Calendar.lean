import ShaderFlow.Render.TimeStep

set_option autoImplicit false

/-
A point in time is written as a date, with a time of day behind it at times, down to fractions of a
second, and how far clocks are ahead of universal time. Rasters count the steps of time since the
start of the year 1970.
-/

namespace ShaderFlow

/-- A point in time as calendars and clocks show it. -/
structure CalendarTime where
  year : Int
  month : Nat := 1
  day : Nat := 1
  hour : Nat := 0
  minute : Nat := 0
  second : Nat := 0
  /-- The digits of the fraction of the second. -/
  fraction : List Nat := []
  deriving DecidableEq, Inhabited

namespace CalendarTime

def isLeapYear (y : Int) : Bool := y % 4 == 0 && (y % 100 != 0 || y % 400 == 0)

/-- The days of a month. -/
def monthLength (y : Int) (month : Nat) : Nat :=
  if month = 2 then (if isLeapYear y then 29 else 28)
  else if month = 4 ∨ month = 6 ∨ month = 9 ∨ month = 11 then 30
  else 31

/-- The days from the first of March of the year zero to that of a year. -/
def daysToMarch (y : Int) : Int := 365 * y + y / 4 - y / 100 + y / 400

/-- The days since the start of the year 1970. Years are taken to begin in March, so that the day
that some of them have more is their last. -/
def days (t : CalendarTime) : Int :=
  let early := t.month ≤ 2
  let y := if early then t.year - 1 else t.year
  let month := if early then t.month + 9 else t.month - 3
  daysToMarch y + (153 * month + 2) / 5 + t.day - 1 - 719468

/-- The day before. -/
def previousDay (t : CalendarTime) : CalendarTime :=
  if 1 < t.day then { t with day := t.day - 1 }
  else
    let (year, month) := if 1 < t.month then (t.year, t.month - 1) else (t.year - 1, 12)
    { t with year, month, day := monthLength year month }

/-- The day after. -/
def nextDay (t : CalendarTime) : CalendarTime :=
  if t.day < monthLength t.year t.month then { t with day := t.day + 1 }
  else
    let (year, month) := if t.month < 12 then (t.year, t.month + 1) else (t.year + 1, 1)
    { t with year, month, day := 1 }

/-- The minutes of a day. -/
def dayMinutes : Int := 1440

/-- So many minutes later, which are less than those of a day. -/
def later (t : CalendarTime) (minutes : Int) : CalendarTime :=
  let total := 60 * (t.hour : Int) + t.minute + minutes
  let ofDay := (total % dayMinutes).toNat
  let t := if total < 0 then t.previousDay else if dayMinutes ≤ total then t.nextDay else t
  { t with hour := ofDay / 60, minute := ofDay % 60 }

/-- The first digits of a fraction as a number, with zeros for those that are missing. -/
def leading (count : Nat) (digits : List Nat) : Nat :=
  Text.ofDigits ((digits ++ List.replicate count 0).take count)

/-- The count of units since the start of the year 1970. -/
def unitCount (unit : TimeUnit) (t : CalendarTime) : Int :=
  let hours := 24 * t.days + t.hour
  let minutes := 60 * hours + t.minute
  let seconds := 60 * minutes + t.second
  match unit with
  | .year => t.year - 1970
  | .month => 12 * (t.year - 1970) + t.month - 1
  | .week => t.days / 7
  | .day => t.days
  | .hour => hours
  | .minute => minutes
  | .second => seconds
  | .part power => Nat.pow 1000 power * seconds + leading (3 * power) t.fraction

/-- The count of steps since the start of the year 1970. A step of no more than one unit counts as
one. -/
def count (step : TimeStep) (t : CalendarTime) : Int :=
  if 1 < step.count then t.unitCount step.unit / step.count else t.unitCount step.unit

/-- A number of two digits that stays below a bound, and the rest. -/
def twoDigits? (low high : Nat) : List Char → Option (Nat × List Char)
  | a :: b :: rest =>
    let n := Text.ofDigits [a.toNat - '0'.toNat, b.toNat - '0'.toNat]
    if a.isDigit && b.isDigit && decide (low ≤ n) && decide (n < high) then some (n, rest) else none
  | _ => none

/-- The minutes behind the hours that clocks are ahead; there may be none. -/
def offsetMinutes? : List Char → Option (Nat × List Char)
  | [] => some (0, [])
  | ':' :: rest => twoDigits? 0 60 rest
  | rest => twoDigits? 0 60 rest

/-- The minutes that clocks are ahead of universal time, behind the sign, and the rest. -/
def offset? (cs : List Char) : Option (Int × List Char) := do
  let (hours, rest) ← twoDigits? 0 24 cs
  let (minutes, rest) ← offsetMinutes? rest
  return (60 * hours + minutes, rest)

/-- A time of day with what follows it: a mark of universal time, or how far clocks are ahead of it,
and blanks. -/
def readZone (t : CalendarTime) (unit : TimeUnit) (cs : List Char) :
    Option (CalendarTime × TimeUnit) := do
  let (ahead, rest) ← match cs with
    | 'Z' :: rest => some (0, rest)
    | '+' :: rest => offset? rest
    | '-' :: rest => (offset? rest).map fun (n, rest) => (-n, rest)
    | rest => some (0, rest)
  if rest.all Text.isPlainBlank then some (t.later (-ahead), unit) else none

/-- The unit that a number of digits of a second's fraction asks for. -/
def fractionUnit (digits : Nat) : TimeUnit := .part (max 1 ((digits + 2) / 3))

/-- The most digits of a second's fraction. -/
def fractionLimit : Nat := 18

/-- The digits of a second's fraction, and what is behind them. -/
def readFraction (t : CalendarTime) (cs : List Char) : Option (CalendarTime × TimeUnit) :=
  let digits := (cs.takeWhile Char.isDigit).take fractionLimit
  readZone { t with fraction := digits.map (·.toNat - '0'.toNat) } (fractionUnit digits.length)
    (cs.drop digits.length)

/-- The time of day behind a date. -/
def readDay (t : CalendarTime) (cs : List Char) : Option (CalendarTime × TimeUnit) := do
  let (hour, rest) ← twoDigits? 0 24 cs
  let t := { t with hour }
  match rest with
  | ':' :: rest =>
    let (minute, rest) ← twoDigits? 0 60 rest
    let t := { t with minute }
    match rest with
    | ':' :: rest =>
      let (second, rest) ← twoDigits? 0 60 rest
      let t := { t with second }
      match rest with
      | '.' :: rest => readFraction t rest
      | rest => readZone t .second rest
    | rest => readZone t .minute rest
  | rest => readZone t .hour rest

/-- What is behind the year of a date. -/
def readDate (t : CalendarTime) : List Char → Option (CalendarTime × TimeUnit)
  | [] => some (t, .year)
  | '-' :: rest => do
    let (month, rest) ← twoDigits? 1 13 rest
    let t := { t with month }
    match rest with
    | [] => return (t, .month)
    | '-' :: rest =>
      let (day, rest) ← twoDigits? 1 (monthLength t.year month + 1) rest
      let t := { t with day }
      match rest with
      | [] => return (t, .day)
      | 'T' :: rest | ' ' :: rest => readDay t rest
      | _ => none
    | _ => none
  | _ => none

/-- Words for the present, and how fine they are. There is no clock here, so the present is the
start of the year 1970. -/
def presentWords : List (String × TimeUnit) := [("today", .day), ("now", .second)]

/-- Reads a date, and the finest unit in which it is written. A minus sign makes the year negative
only at the very start. -/
def readWritten? (s : String) : Option (CalendarTime × TimeUnit) :=
  let body := match s.toList.dropWhile Text.isPlainBlank with
    | '-' :: rest => rest
    | rest => rest
  if body.isEmpty then none
  else
    let size := Text.ofDigits ((body.takeWhile Char.isDigit).map (·.toNat - '0'.toNat))
    let year := Int.bmod (if s.toList.head? = some '-' then -(size : Int) else size) (Nat.pow 2 64)
    readDate { year } (body.dropWhile Char.isDigit)

/-- Reads a point in time, and the finest unit in which it is written. -/
def read? (s : String) : Option (CalendarTime × TimeUnit) :=
  match presentWords.lookup s.toLower with
  | some unit => some ({ year := 1970 }, unit)
  | none => readWritten? s

end CalendarTime

end ShaderFlow
