import ApiLint.Calendar.DateTime
import ApiLint.Number.Written
import ApiLint.Text.Listed

/-!
# The written form of dates

Dates and times in the extended form of ISO 8601, and in the form of a call with their numbers that
messages show.
-/

namespace ApiLint

/-- A natural in decimal, with zeros in front up to the width. -/
def paddedNat (width n : Nat) : String :=
  String.ofList (Binary64.zeroPadded width (Binary64.digitsOf n))

/-- The decimal text of a natural. -/
def writtenNat (n : Nat) : String := writtenInt n

namespace Date

/-- `YYYY-MM-DD`. -/
def written (d : Date) : String :=
  s!"{paddedNat 4 d.year}-{paddedNat 2 d.month}-{paddedNat 2 d.day}"

/-- The date as a call with its numbers. -/
def asCall (d : Date) : String :=
  "datetime.date(" ++ commaSeparated ([d.year, d.month, d.day].map writtenNat) ++ ")"

end Date

/-- Microseconds as a call with whole days, seconds of the day, and microseconds of the second;
parts that are zero are left out. -/
def durationAsCall (microseconds : Int) : String :=
  let days := microseconds.fdiv microsPerDay
  let rest := (microseconds.fmod microsPerDay).toNat
  let part (name : String) (n : Int) : List String :=
    if n = 0 then [] else [name ++ "=" ++ writtenInt n]
  let parts := part "days" days ++ part "seconds" (rest / microsPerSecond : Nat)
    ++ part "microseconds" (rest % microsPerSecond : Nat)
  "datetime.timedelta(" ++ (if parts.isEmpty then writtenInt 0 else commaSeparated parts) ++ ")"

namespace DateTime

/-- `+HH:MM`, with seconds and microseconds only if there are any. -/
def writtenOffset (microseconds : Int) : String :=
  let magnitude := microseconds.natAbs
  let seconds := magnitude / microsPerSecond
  let micros := magnitude % microsPerSecond
  (if microseconds < 0 then "-" else "+")
    ++ s!"{paddedNat 2 (seconds / 3600)}:{paddedNat 2 (seconds / 60 % 60)}"
    ++ (if seconds % 60 = 0 ∧ micros = 0 then "" else ":" ++ paddedNat 2 (seconds % 60))
    ++ (if micros = 0 then "" else "." ++ paddedNat 6 micros)

/-- Date, separator, `HH:MM:SS`, a fraction if there is one, and the offset if there is one. -/
def writtenWith (separator : String) (t : DateTime) : String :=
  t.date.written ++ separator
    ++ s!"{paddedNat 2 t.hour}:{paddedNat 2 t.minute}:{paddedNat 2 t.second}"
    ++ (if t.microsecond = 0 then "" else "." ++ paddedNat 6 t.microsecond)
    ++ (match t.offset with
      | none => ""
      | some o => writtenOffset o)

/-- The written form with a blank between date and time. -/
def written (t : DateTime) : String := t.writtenWith " "

/-- The time as a call with its numbers; trailing zero seconds are left out. -/
def asCall (t : DateTime) : String :=
  let numbers := [t.date.year, t.date.month, t.date.day, t.hour, t.minute]
    ++ (if t.second = 0 ∧ t.microsecond = 0 then [] else [t.second])
    ++ (if t.microsecond = 0 then [] else [t.microsecond])
  let zone := match t.offset with
    | none => []
    | some o =>
      ["tzinfo=datetime.timezone" ++ if o = 0 then ".utc" else "(" ++ durationAsCall o ++ ")"]
  "datetime.datetime(" ++ commaSeparated (numbers.map writtenNat ++ zone) ++ ")"

end DateTime

namespace CalendarError

def message : CalendarError → String
  | .year value => s!"year {value} is out of range"
  | .month => "month must be in 1..12"
  | .day => "day is out of range for month"
  | .hour => "hour must be in 0..23"
  | .minute => "minute must be in 0..59"
  | .second => "second must be in 0..59"
  | .offset microseconds =>
    "offset must be a timedelta strictly between -timedelta(hours=24) and timedelta(hours=24), not "
      ++ durationAsCall microseconds ++ "."

end CalendarError

end ApiLint
