import SchemaForge.Document.Yaml.Scalars

/-!
# Days and moments in a YAML text

A day is written as year, month and day with four, two and two digits. A moment adds the time after
a `T` or blanks, perhaps a fraction of a second, and perhaps `Z` or the hours and minutes by which
its clock is ahead.

A text may have the form of a day without being one of the calendar; then reading it fails.
-/

namespace SchemaForge.Yaml

/-- A number of at least `least` and at most `most` digits at the start of a text. -/
def takeNumber (least most : Nat) (cs : List Char) : Option (Nat × List Char) :=
  let digits := (cs.take most).takeWhile Char.isDigit
  if digits.length < least then none
  else some (Json.digitsValue digits, cs.drop digits.length)

/-- The text after a given character. -/
def after? (c : Char) : List Char → Option (List Char)
  | x :: xs => if x == c then some xs else none
  | [] => none

/-- Year, month and day at the start of a text; `least` is the least number of digits of the last
two. -/
def takeDate (least : Nat) (cs : List Char) : Option (Date × List Char) := do
  let (year, cs) ← takeNumber 4 4 cs
  let (month, cs) ← takeNumber least 2 (← after? '-' cs)
  let (day, cs) ← takeNumber least 2 (← after? '-' cs)
  return (⟨year, month, day⟩, cs)

/-- What separates the day from the time. -/
def takeGap : List Char → Option (List Char)
  | [] => none
  | c :: cs =>
    if c == 'T' || c == 't' then some cs
    else if isSpace c then some (cs.dropWhile isSpace)
    else none

/-- A fraction of a second in millionths; further digits are dropped. -/
def takeMicros : List Char → Nat × List Char
  | '.' :: cs =>
    let digits := cs.takeWhile Char.isDigit
    let six := digits.take 6
    (Json.digitsValue (six ++ List.replicate (6 - six.length) '0'), cs.drop digits.length)
  | cs => (0, cs)

/-- How many minutes a clock is ahead, which ends a text. -/
def takeOffset (cs : List Char) : Option (Option Int) :=
  if cs.isEmpty then some none
  else
    match cs.dropWhile isSpace with
    | ['Z'] => some (some 0)
    | sign :: rest =>
      if sign == '+' || sign == '-' then do
        let (hours, rest) ← takeNumber 1 2 rest
        let (minutes, rest) ←
          match rest with
          | ':' :: rest => takeNumber 2 2 rest
          | rest => some (0, rest)
        let n : Int := hours * 60 + minutes
        if rest.isEmpty then some (some (if sign == '-' then -n else n)) else none
      else none
    | [] => none

/-- A text in the form of a moment. -/
def moment? (cs : List Char) : Option Moment := do
  let (date, cs) ← takeDate 1 cs
  let (hour, cs) ← takeNumber 1 2 (← takeGap cs)
  let (minute, cs) ← takeNumber 2 2 (← after? ':' cs)
  let (second, cs) ← takeNumber 2 2 (← after? ':' cs)
  let (micro, cs) := takeMicros cs
  let ahead ← takeOffset cs
  return { date, hour, minute, second, micro, ahead }

/-- A text in the form of a day. -/
def date? (cs : List Char) : Option Date :=
  match takeDate 2 cs with
  | some (date, []) => some date
  | _ => none

/-- A clock is less than a day ahead or behind. -/
def offsetError? : Option Int → Option String
  | some minutes =>
    if minutes.natAbs < 1440 then none
    else some ("offset must be a timedelta strictly between -timedelta(hours=24) and " ++
      "timedelta(hours=24), not " ++ Moment.spanShown minutes ++ ".")
  | none => none

/-- What is wrong with a moment, if something is. -/
def momentError? (m : Moment) : Option String :=
  (offsetError? m.ahead).orElse fun _ => m.date.error?.orElse fun _ => m.timeError?

/-- A value, or a fault if something is wrong with it. -/
def checked {α : Type} (a : α) (error? : Option String) : Except Fault α :=
  match error? with
  | some message => .error (.badValue message)
  | none => .ok a

/-- The day or moment that a text has the form of. -/
def timestamp? (cs : List Char) : Option (Except Fault Scalar) :=
  match date? cs with
  | some d => some (checked (.date d) d.error?)
  | none => (moment? cs).map fun m => checked (.moment m) (momentError? m)

end SchemaForge.Yaml
