/-!
# Days and moments

Documents may hold days and moments of days. A moment may say how far its clock is ahead of the
common time; one that does not is a moment of some unknown clock.
-/

namespace SchemaForge

/-- A calendar day. -/
structure Date where
  year : Nat
  month : Nat
  day : Nat
deriving DecidableEq, Repr, Inhabited

/-- A moment of a day. -/
structure Moment where
  date : Date
  hour : Nat
  minute : Nat
  second : Nat
  /-- Millionths of a second. -/
  micro : Nat
  /-- How many minutes the clock is ahead of the common time, if that is known. -/
  ahead : Option Int
deriving DecidableEq, Repr, Inhabited

namespace Calendar

/-- A number in decimal digits, filled up with zeros on the left. -/
def padded (width n : Nat) : String :=
  let digits := Nat.toDigits 10 n
  String.ofList (List.replicate (width - digits.length) '0' ++ digits)

def plain (n : Nat) : String := padded 0 n

def isLeap (year : Nat) : Bool := year % 4 == 0 && (year % 100 != 0 || year % 400 == 0)

/-- The number of days of a month. -/
def daysIn (year month : Nat) : Nat :=
  if month == 2 then (if isLeap year then 29 else 28)
  else if month == 4 || month == 6 || month == 9 || month == 11 then 30
  else 31

end Calendar

open Calendar

namespace Date

/-- What is wrong with a day, if it is none of the calendar. -/
def error? (d : Date) : Option String :=
  if d.year = 0 then some "year 0 is out of range"
  else if d.month < 1 || 12 < d.month then some "month must be in 1..12"
  else if d.day < 1 || daysIn d.year d.month < d.day then some "day is out of range for month"
  else none

/-- A day as year, month and day. -/
def iso (d : Date) : String :=
  padded 4 d.year ++ "-" ++ padded 2 d.month ++ "-" ++ padded 2 d.day

/-- The parts of a day, as messages list them. -/
def listed (d : Date) : String := plain d.year ++ ", " ++ plain d.month ++ ", " ++ plain d.day

/-- A day inside another value of a message. -/
def shown (d : Date) : String := "datetime.date(" ++ d.listed ++ ")"

end Date

namespace Moment

/-- What is wrong with the time of a moment, if it is none of a day. -/
def timeError? (m : Moment) : Option String :=
  if 23 < m.hour then some "hour must be in 0..23"
  else if 59 < m.minute then some "minute must be in 0..59"
  else if 59 < m.second then some "second must be in 0..59"
  else none

/-- How far a clock is ahead, as hours and minutes with a sign. -/
def offsetText (minutes : Int) : String :=
  let n := minutes.natAbs
  (if minutes < 0 then "-" else "+") ++ padded 2 (n / 60) ++ ":" ++ padded 2 (n % 60)

/-- A moment as day and time; millionths are written if there are some. -/
def iso (m : Moment) : String :=
  m.date.iso ++ " " ++ padded 2 m.hour ++ ":" ++ padded 2 m.minute ++ ":" ++ padded 2 m.second ++
    (if m.micro = 0 then "" else "." ++ padded 6 m.micro) ++
    (match m.ahead with
      | some minutes => offsetText minutes
      | none => "")

/-- A length of time in minutes, inside another value of a message: whole days and the seconds
beyond them. -/
def spanShown (minutes : Int) : String :=
  let days := minutes / 1440
  let seconds := (minutes % 1440).toNat * 60
  let dayText := (if days < 0 then "-" else "") ++ plain days.natAbs
  "datetime.timedelta(" ++
    (if days = 0 then "seconds=" ++ plain seconds
      else if seconds = 0 then "days=" ++ dayText
      else "days=" ++ dayText ++ ", seconds=" ++ plain seconds) ++ ")"

/-- A moment inside another value of a message; parts that are zero are left out at the end. -/
def shown (m : Moment) : String :=
  let time :=
    if m.micro ≠ 0 then [m.hour, m.minute, m.second, m.micro]
    else if m.second ≠ 0 then [m.hour, m.minute, m.second]
    else [m.hour, m.minute]
  "datetime.datetime(" ++ m.date.listed ++ String.join (time.map fun n => ", " ++ plain n) ++
    (match m.ahead with
      | none => ""
      | some 0 => ", tzinfo=datetime.timezone.utc"
      | some minutes => ", tzinfo=datetime.timezone(" ++ spanShown minutes ++ ")") ++ ")"

end Moment

end SchemaForge
