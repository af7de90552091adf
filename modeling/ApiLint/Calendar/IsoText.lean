import ApiLint.Calendar.DateTime

/-!
# Dates and times in ISO 8601

Reads the calendar and week forms of dates, with and without separators, and dates with a time of
day. The reader works on bytes: fields are ASCII digits at fixed places, and a date and its time are
kept apart by any one character. What follows the last field read is not examined everywhere; each
function says what it leaves.
-/

namespace ApiLint.IsoText

/-- The byte of an ASCII character. -/
def byte (c : Char) : UInt8 := c.toNat.toUInt8

def isDigit (b : UInt8) : Bool := byte '0' ≤ b && b ≤ byte '9'

/-- The first byte, zero at the end of the text. -/
def first (bs : List UInt8) : UInt8 := bs.headD 0

/-- Reads exactly `count` digits. -/
def digits? : (count : Nat) → List UInt8 → Option (Nat × List UInt8)
  | 0, bs => some (0, bs)
  | count + 1, bs => do
    match bs with
    | [] => none
    | b :: rest =>
      if isDigit b then
        let (value, rest) ← digits? count rest
        some ((b.toNat - 48) * Nat.pow 10 count + value, rest)
      else none

/-- Skips a hyphen, which must be there if separators are in use. -/
def hyphen? (separated : Bool) (bs : List UInt8) : Option (List UInt8) :=
  if separated then if first bs == byte '-' then some bs.tail else none else some bs

/-- Reads a date at the front of a text: a year, then a month and a day, or the mark `W`, a week
and, unless the `length` bytes of the date are used up, a day of the week. -/
def readDate (length : Nat) (bs : List UInt8) : Option Date := do
  let (year, rest) ← digits? 4 bs
  let separated := first rest == byte '-'
  let rest := if separated then rest.tail else rest
  if first rest == byte 'W' then
    let (week, rest) ← digits? 2 rest.tail
    let used := bs.length - rest.length
    if used < length then
      let rest ← hyphen? separated rest
      let (day, _) ← digits? 1 rest
      Date.ofIsoWeek? year week day
    else Date.ofIsoWeek? year week 1
  else
    let (month, rest) ← digits? 2 rest
    let rest ← hyphen? separated rest
    let (day, _) ← digits? 2 rest
    (Date.ofNumbers year month day).toOption

/-- A date alone: a text of seven, eight or ten bytes that begins with a date. -/
def date? (s : String) : Option Date :=
  let bs := s.toUTF8.toList
  if bs.length = 7 ∨ bs.length = 8 ∨ bs.length = 10 then readDate bs.length bs else none

/-- A fraction of a second in microseconds: up to six digits, which fill the room before the end of
the field; more digits are dropped. The flag tells whether text is left. -/
def readFraction (room : Nat) (bs : List UInt8) : Option (Nat × Bool) := do
  let count := min room 6
  let (value, rest) ← digits? count bs
  some (value * Nat.pow 10 (6 - count), first (rest.dropWhile isDigit) != 0)

/-- Reads up to `fields` two-digit fields and a fraction, in a field of `room` bytes. Colons stand
between all fields or none. A field is the last one when at most one byte of the room is left; the
flag tells whether that byte, or anything after a fraction, is left. -/
def readFields : (fields : Nat) → (separated : Option Bool) → (room : Nat) → List UInt8 →
    Option (List Nat × Nat × Bool)
  | 0, _, room, bs => (readFraction room bs).map fun (micros, more) => ([], micros, more)
  | fields + 1, separated, room, bs => do
    let (value, rest) ← digits? 2 bs
    let next := first rest
    let separated := separated.getD (next == byte ':')
    if room ≤ 3 then some ([value], 0, next != 0)
    else if separated && next == byte ':' then
      let (values, micros, more) ← readFields fields (some separated) (room - 3) rest.tail
      some (value :: values, micros, more)
    else if next == byte '.' || next == byte ',' then
      let (micros, more) ← readFraction (room - 3) rest.tail
      some ([value], micros, more)
    else if separated then none
    else
      let (values, micros, more) ← readFields fields (some separated) (room - 2) rest
      some (value :: values, micros, more)

/-- A time of day or an offset: hours, minutes, seconds and microseconds. -/
structure Fields where
  hour : Nat
  minute : Nat
  second : Nat
  microsecond : Nat

/-- Reads hours, minutes, seconds and a fraction; fields that are missing are zero. -/
def readClock (room : Nat) (bs : List UInt8) : Option (Fields × Bool) := do
  let (values, micros, more) ← readFields 3 none room bs
  some (⟨values.getD 0 0, values.getD 1 0, values.getD 2 0, micros⟩, more)

/-- Whether a byte begins an offset from universal time. -/
def isZoneMark (b : UInt8) : Bool := b == byte '+' || b == byte '-' || b == byte 'Z'

/-- Reads an offset in microseconds after its mark. An offset of no whole second is universal
time. -/
def readOffset (mark : UInt8) (bs : List UInt8) : Option Int :=
  if mark == byte 'Z' then if first bs == 0 then some 0 else none
  else do
    let (fields, more) ← readClock bs.length bs
    if more then none
    else
      let seconds := fields.hour * 3600 + fields.minute * 60 + fields.second
      let micros := if seconds = 0 then 0 else seconds * microsPerSecond + fields.microsecond
      some (if mark == byte '-' then -(micros : Int) else micros)

/-- Reads a time of day and an offset. Text between the last field of the time and the offset is
passed over. -/
def readTime (bs : List UInt8) : Option (Fields × Option Int) :=
  match bs.findIdx? isZoneMark with
  | none => do
    let (fields, more) ← readClock bs.length bs
    if more then none else some (fields, none)
  | some i => do
    let (fields, _) ← readClock i bs
    let offset ← readOffset (first (bs.drop i)) (bs.drop (i + 1))
    some (fields, some offset)

/-- The length of the date at the front of a text with a time, told from the hyphens, the mark `W`
and, where a day of the week may be left out, from the run of digits behind it. -/
def dateLength? (bs : List UInt8) : Option Nat :=
  let n := bs.length
  let at_ := fun i => bs.getD i 0
  if n < 7 then none
  else if n = 7 then some 7
  else if at_ 4 == byte '-' then
    if at_ 5 == byte 'W' then
      if 8 < n && at_ 8 == byte '-' then
        if n = 9 then none else if 10 < n && isDigit (at_ 10) then some 8 else some 10
      else some 8
    else some 10
  else if at_ 4 == byte 'W' then
    let run := 7 + ((bs.drop 7).takeWhile isDigit).length
    if run < 9 then some run else if run % 2 = 0 then some 7 else some 8
  else some 8

/-- The bytes after the first character. -/
def dropCharacter (bs : List UInt8) : List UInt8 :=
  let b := first bs
  if b < 0x80 then bs.tail
  else if b &&& 0xf0 == 0xe0 then bs.drop 3
  else if b &&& 0xf0 == 0xf0 then bs.drop 4
  else bs.drop 2

/-- A date with a time of day: a date, any one character, and a time. A date alone stands for its
midnight. -/
def dateTime? (s : String) : Option DateTime := do
  let bs := s.toUTF8.toList
  let length ← dateLength? bs
  let date ← readDate length bs
  let (fields, offset) ←
    if length < bs.length then readTime (dropCharacter (bs.drop length))
    else some (⟨0, 0, 0, 0⟩, none)
  (DateTime.ofNumbers date.year date.month date.day fields.hour fields.minute fields.second
    fields.microsecond offset).toOption

/-- A date with a time of day where a final `Z` of either case stands for universal time. -/
def instant? (s : String) : Option DateTime :=
  match s.toList.reverse with
  | 'Z' :: rest | 'z' :: rest => dateTime? (String.ofList rest.reverse ++ "+00:00")
  | _ => dateTime? s

end ApiLint.IsoText
