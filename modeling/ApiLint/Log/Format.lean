import ApiLint.Log.Level
import ApiLint.Text.Quoted

/-!
# Formats of log lines

A format is a text with directives. A directive starts with `%`, names a part of the record in
parentheses, and goes on with flags, a least width, a precision and a letter for the conversion. The
sign `%%` stands for one `%`. A text without any directive is no format. A record that a format
cannot show has no line.
-/

namespace ApiLint

/-- A directive: which part of a record is shown, and how. -/
structure LogDirective where
  field : String
  flags : List Char
  width : Nat
  precision : Option Nat
  conversion : Char
  deriving DecidableEq, Repr

namespace LogDirective

/-- The letters of conversions. -/
def conversions : List Char := "diouxefgcrsa%".toList

/-- Whether a character can stand in the name of a part. -/
def isNameChar (c : Char) : Bool := c.isAlphanum || c == '_' || 0x80 ≤ c.toNat

def isFlag (c : Char) : Bool := "#0+ -".toList.contains c

/-- The number that a text starts with, and what follows it. -/
def number (cs : List Char) : Option Nat × List Char :=
  match cs.takeWhile Char.isDigit with
  | [] => (none, cs)
  | ds => (some (ds.foldl (fun n d => n * 10 + (d.toNat - '0'.toNat)) 0), cs.dropWhile Char.isDigit)

/-- The precision that a text starts with, and what follows it. -/
def precisionOf : List Char → Option Nat × List Char
  | '.' :: cs => number cs
  | cs => (none, cs)

/-- The directive that a text starts with, without its sign, and what follows it. -/
def read? : List Char → Option (LogDirective × List Char)
  | '(' :: cs =>
    match cs.dropWhile isNameChar with
    | ')' :: rest =>
      let flags := rest.takeWhile isFlag
      let width := number (rest.dropWhile isFlag)
      let precision := precisionOf width.2
      match precision.2 with
      | c :: rest =>
        if cs.takeWhile isNameChar ≠ [] && conversions.contains c.toLower then
          some (⟨String.ofList (cs.takeWhile isNameChar), flags, width.1.getD 0, precision.1, c⟩, rest)
        else none
      | [] => none
    | _ => none
  | _ => none

private theorem length_dropWhile_le (p : Char → Bool) (cs : List Char) :
    (cs.dropWhile p).length ≤ cs.length := (List.dropWhile_suffix p).length_le

private theorem length_number_le (cs : List Char) : (number cs).2.length ≤ cs.length := by
  unfold number
  split
  · exact Nat.le_refl _
  · exact length_dropWhile_le ..

private theorem length_precisionOf_le (cs : List Char) :
    (precisionOf cs).2.length ≤ cs.length := by
  unfold precisionOf
  split
  · exact Nat.le_succ_of_le (length_number_le _)
  · exact Nat.le_refl _

theorem length_lt_of_read? {cs rest : List Char} {d : LogDirective}
    (h : read? cs = some (d, rest)) : rest.length < cs.length := by
  unfold read? at h
  split at h
  · next cs =>
    split at h
    · next rest' hrest =>
      have h₁ := length_dropWhile_le isNameChar cs
      have h₂ := length_dropWhile_le isFlag rest'
      have h₃ := length_number_le (rest'.dropWhile isFlag)
      have h₄ := length_precisionOf_le (number (rest'.dropWhile isFlag)).2
      simp only at h
      split at h
      · next hc =>
        split at h
        · simp only [Option.some.injEq, Prod.mk.injEq] at h
          obtain ⟨-, rfl⟩ := h
          simp only [hrest, hc, List.length_cons] at *
          omega
        · simp at h
      · simp at h
    · simp at h
  · simp at h

/-- A text filled up to the width of a directive. -/
def fill (d : LogDirective) (cs : List Char) : List Char :=
  let blanks := List.replicate (d.width - cs.length) ' '
  if d.flags.contains '-' then cs ++ blanks else blanks ++ cs

/-- A text as a directive shows it: cut to the precision. -/
def showText (d : LogDirective) (s : String) : List Char :=
  d.fill (match d.precision with
    | some n => s.toList.take n
    | none => s.toList)

/-- An integer as a directive shows it: the precision is the least count of digits, and zeros may
stand for the blanks in front. -/
def showInt (d : LogDirective) (n : Int) : List Char :=
  let sign :=
    if n < 0 then ['-'] else if d.flags.contains '+' then ['+']
    else if d.flags.contains ' ' then [' '] else []
  let digits := Binary64.zeroPadded (d.precision.getD 0) (Binary64.digitsOf n.natAbs)
  if d.flags.contains '0' && !d.flags.contains '-' then
    sign ++ Binary64.zeroPadded (d.width - sign.length) digits
  else d.fill (sign ++ digits)

/-- What a directive shows of a text: the text, or its quoted form. -/
def ofText? (d : LogDirective) (s : String) : Option (List Char) :=
  if d.conversion == 's' then some (d.showText s)
  else if d.conversion == 'r' then some (d.showText (Text.quoted s))
  else none

/-- What a directive shows of an integer. -/
def ofInt? (d : LogDirective) (n : Int) : Option (List Char) :=
  if ['s', 'r', 'a'].contains d.conversion then some (d.showText (writtenInt n))
  else if ['d', 'i', 'u'].contains d.conversion then some (d.showInt n)
  else none

/-- What a directive shows of a record. -/
def shown? (d : LogDirective) (r : LogRecord) : Option (List Char) :=
  if d.conversion == '%' then some ['%'] else
  match d.field with
  | "name" => d.ofText? r.logger
  | "levelname" => d.ofText? (LogLevel.label r.level)
  | "levelno" => d.ofInt? r.level
  | "message" | "msg" => d.ofText? r.message
  | _ => none

end LogDirective

/-- A format that has a directive. -/
structure LogFormat where
  text : String
  deriving DecidableEq, Repr

/-- Why a text is no format: it has no directive. -/
structure LogFormatError where
  text : String
  deriving DecidableEq, Repr

def LogFormatError.message (e : LogFormatError) : String :=
  s!"Invalid format '{e.text}' for '%' style"

namespace LogFormat

/-- Name, level and message of a record. -/
def standard : LogFormat := ⟨"%(name)s - %(levelname)s - %(message)s"⟩

/-- The message of a record alone. -/
def plain : LogFormat := ⟨"%(message)s"⟩

/-- Whether a directive starts somewhere in a text. -/
def hasDirective : List Char → Bool
  | [] => false
  | c :: cs => (c == '%' && (LogDirective.read? cs).isSome) || hasDirective cs

/-- Reads a format. The empty text stands for the plain one. -/
def ofText (text : String) : Except LogFormatError LogFormat :=
  if text.isEmpty then .ok plain
  else if hasDirective text.toList then .ok ⟨text⟩
  else .error ⟨text⟩

/-- The characters of a format with the directives replaced. -/
def expand (r : LogRecord) (cs : List Char) : Option (List Char) :=
  match cs with
  | [] => some []
  | '%' :: '%' :: cs => ('%' :: ·) <$> expand r cs
  | '%' :: cs =>
    match h : LogDirective.read? cs with
    | some (d, rest) =>
      have := LogDirective.length_lt_of_read? h
      (d.shown? r).bind fun cs => (cs ++ ·) <$> expand r rest
    | none => none
  | c :: cs => (c :: ·) <$> expand r cs
termination_by cs.length

/-- The line of a record, if the format can show it. -/
def line? (f : LogFormat) (r : LogRecord) : Option String :=
  (expand r f.text.toList).map String.ofList

end LogFormat

end ApiLint
