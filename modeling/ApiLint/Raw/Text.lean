import ApiLint.Calendar.Written
import ApiLint.Number.Reader
import ApiLint.Raw.Basic

/-!
# The text of raw values

Two texts of a value: `inspect` shows any value so that its kind can be told, with texts in quotes,
and `text` shows a single value plainly, as it appears in a name or a pointer. Integers with too
many digits are not written, and a value that holds one has no text: whoever asks for it gets an
error, and `inspect` and `text` say what the text would be.
-/

namespace ApiLint.Raw

/-- The parts with a comma between them, inside a pair of brackets. -/
def bracketed (opening closing : String) (parts : List String) : String :=
  opening ++ commaSeparated parts ++ closing

mutual

/-- The value as it is shown in messages. -/
def inspect : Raw → String
  | .null => "None"
  | .bool b => if b then "True" else "False"
  | .int n => writtenInt n
  | .float x => x.written
  | .str s => Text.quoted s
  | .bytes bs => Text.quotedBytes bs
  | .date d => d.asCall
  | .dateTime t => t.asCall
  | .list xs => bracketed "[" "]" (inspectAll xs)
  | .pair k v => bracketed "(" ")" [inspect k, inspect v]
  | .set [] => "set()"
  | .set xs => bracketed "\x7b" "\x7d" (inspectAll xs)
  | .dict es => bracketed "\x7b" "\x7d" (inspectEntries es)

def inspectAll : List Raw → List String
  | [] => []
  | x :: xs => inspect x :: inspectAll xs

def inspectEntries : List (Raw × Raw) → List String
  | [] => []
  | (k, v) :: es => (inspect k ++ ": " ++ inspect v) :: inspectEntries es

end

/-- The value as a name: texts as they are, dates in ISO 8601, everything else as it is shown in
messages. -/
def text : Raw → String
  | .str s => s
  | .date d => d.written
  | .dateTime t => t.written
  | r => r.inspect

@[simp] theorem text_str (s : String) : (str s).text = s := rfl

/-- A list of texts as it is shown in messages. -/
def inspectNames (names : List String) : String := (list (names.map str)).inspect

/-! ### Values without a text -/

mutual

/-- Whether every integer in a value is short enough to be written. -/
def isWritable : Raw → Bool
  | .int n => Number.isWritable n
  | .list xs => allWritable xs
  | .pair k v => isWritable k && isWritable v
  | .set xs => allWritable xs
  | .dict es => entriesWritable es
  | _ => true

def allWritable : List Raw → Bool
  | [] => true
  | x :: xs => isWritable x && allWritable xs

def entriesWritable : List (Raw × Raw) → Bool
  | [] => true
  | (k, v) :: es => isWritable k && isWritable v && entriesWritable es

end

@[simp] theorem isWritable_str (s : String) : (str s).isWritable = true := rfl

@[simp] theorem isWritable_null : null.isWritable = true := rfl

/-- Asks for the texts of values. -/
def requireTexts (rs : List Raw) : Except NumberError Unit :=
  if rs.all isWritable then .ok () else .error .tooLongToWrite

theorem requireTexts_eq_ok_iff {rs : List Raw} :
    requireTexts rs = .ok () ↔ ∀ r ∈ rs, r.isWritable = true := by
  simp [requireTexts]

/-- The text of a value as a name, if it has one. -/
def writtenText (r : Raw) : Except NumberError String := (requireTexts [r]).map fun _ => r.text

end ApiLint.Raw
