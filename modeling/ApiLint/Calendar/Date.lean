/-!
# Calendar dates

Dates of the proleptic Gregorian calendar in the years 1 to 9999, their place in the count of days,
and the dates that an ISO week names.
-/

namespace ApiLint

/-- Whether the year has a 29th of February. -/
def isLeapYear (year : Nat) : Bool := year % 4 == 0 && (year % 100 != 0 || year % 400 == 0)

/-- The number of days in a month, none for a number that is no month. -/
def daysInMonth (year month : Nat) : Nat :=
  match month with
  | 1 | 3 | 5 | 7 | 8 | 10 | 12 => 31
  | 4 | 6 | 9 | 11 => 30
  | 2 => if isLeapYear year then 29 else 28
  | _ => 0

/-- A calendar date. -/
structure Date where
  year : Nat
  month : Nat
  day : Nat
  year_mem : 1 ≤ year ∧ year ≤ 9999
  month_mem : 1 ≤ month ∧ month ≤ 12
  day_mem : 1 ≤ day ∧ day ≤ daysInMonth year month
  deriving DecidableEq, Repr

/-- Why numbers do not make up a date or a time of day. -/
inductive CalendarError
  | year (value : Nat)
  | month
  | day
  | hour
  | minute
  | second
  /-- The offset from universal time, in microseconds, is a day or more. -/
  | offset (microseconds : Int)
  deriving DecidableEq, Repr

namespace Date

/-- The date with the given numbers; the year is examined first, then the month, then the day. -/
def ofNumbers (year month day : Nat) : Except CalendarError Date :=
  if hy : 1 ≤ year ∧ year ≤ 9999 then
    if hm : 1 ≤ month ∧ month ≤ 12 then
      if hd : 1 ≤ day ∧ day ≤ daysInMonth year month then
        .ok ⟨year, month, day, hy, hm, hd⟩
      else .error .day
    else .error .month
  else .error (.year year)

/-- The days of the years before a year. -/
def daysBeforeYear (year : Nat) : Nat :=
  let y := year - 1
  y * 365 + y / 4 - y / 100 + y / 400

/-- The days of the months of a year before a month. -/
def daysBeforeMonth (year month : Nat) : Nat :=
  (List.range (month - 1)).foldl (fun days m => days + daysInMonth year (m + 1)) 0

/-- The number of a day, counted from one for the first of January of the year 1. -/
def dayNumber (year month day : Nat) : Nat :=
  daysBeforeYear year + daysBeforeMonth year month + day

/-- The number of the date in the count of days. -/
def ordinal (d : Date) : Nat := dayNumber d.year d.month d.day

/-- The month and day of a day of the year, the latter counted from one. -/
def monthAndDay? (year dayOfYear : Nat) : Option (Nat × Nat) :=
  (List.range 12).findSome? fun m =>
    let before := daysBeforeMonth year (m + 1)
    if before < dayOfYear ∧ dayOfYear ≤ before + daysInMonth year (m + 1) then
      some (m + 1, dayOfYear - before)
    else none

/-- The date with a number in the count of days. The year is one of the two that the mean length of
a year allows. -/
def ofOrdinal? (n : Nat) : Option Date :=
  let guess := n * 400 / 146097 + 1
  let year := if n ≤ daysBeforeYear guess then guess - 1
    else if daysBeforeYear (guess + 1) < n then guess + 1 else guess
  match monthAndDay? year (n - daysBeforeYear year) with
  | some (month, day) => (ofNumbers year month day).toOption
  | none => none

/-- The day of the week, zero for Monday. -/
def weekday (ordinal : Nat) : Nat := (ordinal + 6) % 7

/-- Whether an ISO year has a 53rd week: it begins on a Thursday, or on a Wednesday in a leap
year. -/
def hasLongIsoYear (year : Nat) : Bool :=
  let first := weekday (dayNumber year 1 1)
  first == 3 || (first == 2 && isLeapYear year)

/-- The number of the Monday before the first week of an ISO year begins, moved one day back: adding
`7 * (week - 1) + day` gives the number of a day of the year. The first week is the one with the
first Thursday. -/
def isoYearStart (year : Nat) : Int :=
  let first := dayNumber year 1 1
  let monday : Int := first - weekday first
  if weekday first ≤ 3 then monday - 1 else monday + 6

/-- The date of a day of an ISO week. -/
def ofIsoWeek? (year week day : Nat) : Option Date :=
  if year = 0 ∨ week = 0 ∨ 53 < week ∨ (week = 53 ∧ !hasLongIsoYear year) ∨ day = 0 ∨ 7 < day then
    none
  else
    let n := isoYearStart year + 7 * (week - 1 : Nat) + day
    if n ≤ 0 then none else ofOrdinal? n.toNat

example : (ofIsoWeek? 2024 1 1).map ordinal = some (dayNumber 2024 1 1) := by decide +kernel
example : (ofIsoWeek? 2020 53 7).map (fun d => (d.year, d.month, d.day)) = some (2021, 1, 3) := by
  decide +kernel

end Date

end ApiLint
