import ApiLint.Calendar.Date

/-!
# Dates with a time of day

A date with a time of day to the microsecond and, optionally, an offset from universal time.
-/

namespace ApiLint

/-- The microseconds of a second. -/
def microsPerSecond : Nat := 1000000

/-- The microseconds of a day. -/
def microsPerDay : Nat := 86400 * microsPerSecond

/-- A date and a time of day; a time without an offset is local. -/
structure DateTime where
  date : Date
  hour : Nat
  minute : Nat
  second : Nat
  microsecond : Nat
  /-- Microseconds ahead of universal time. -/
  offset : Option Int
  hour_lt : hour < 24
  minute_lt : minute < 60
  second_lt : second < 60
  microsecond_lt : microsecond < microsPerSecond
  offset_lt : ∀ o, offset = some o → o.natAbs < microsPerDay
  deriving DecidableEq

namespace DateTime

/-- A usable offset from universal time: less than a day either way. -/
def checkOffset (microseconds : Int) : Except CalendarError Unit :=
  if microseconds.natAbs < microsPerDay then .ok () else .error (.offset microseconds)

/-- The date and time with the given numbers; the date is examined first, then the time of day from
the hour on. -/
def ofNumbers (year month day hour minute second microsecond : Nat) (offset : Option Int) :
    Except CalendarError DateTime :=
  match Date.ofNumbers year month day with
  | .error e => .error e
  | .ok date =>
    if hh : hour < 24 then
      if hm : minute < 60 then
        if hs : second < 60 then
          if hu : microsecond < microsPerSecond then
            if ho : ∀ o ∈ offset, o.natAbs < microsPerDay then
              .ok ⟨date, hour, minute, second, microsecond, offset, hh, hm, hs, hu, ho⟩
            else .error (.offset (offset.getD 0))
          else .error .second
        else .error .second
      else .error .minute
    else .error .hour

/-- Midnight of a date, local. -/
def midnight (date : Date) : DateTime :=
  ⟨date, 0, 0, 0, 0, none, by decide, by decide, by decide, by decide, by simp⟩

/-- Microseconds since the day before the first date, as the clock shows them. -/
def clockMicros (t : DateTime) : Int :=
  ((t.date.ordinal * 86400 + t.hour * 3600 + t.minute * 60 + t.second) * microsPerSecond
    + t.microsecond : Nat)

/-- Whether two times are the same moment. A local time is never the same as one with an offset. -/
def sameMoment (t u : DateTime) : Bool :=
  match t.offset, u.offset with
  | none, none => t.clockMicros == u.clockMicros
  | some o, some p => t.clockMicros - o == u.clockMicros - p
  | _, _ => false

end DateTime

end ApiLint
