import ApiLint.Calendar.Written
import ApiLint.Number.Reader

/-!
# Faults of YAML texts

A text that is not YAML, or whose nodes do not fit their tags, is `invalid`, and the reason is not
told. The other faults are those of single scalars that their tag accepts at first sight.
-/

namespace ApiLint

/-- Why a text gives no value. -/
inductive YamlFault
  | invalid
  /-- A scalar tagged as a boolean that is none. -/
  | boolean (text : String)
  /-- A scalar tagged as a number with nothing to read. -/
  | emptyNumber
  | number (error : NumberError)
  | calendar (error : CalendarError)
  /-- A scalar tagged as a timestamp that is none. -/
  | timestamp
  /-- A collection tagged as a timestamp. -/
  | timestampOfCollection
  /-- An escape beyond the last code point. -/
  | codePoint (value : Nat)

namespace YamlFault

/-- The largest number that an escape may hold to be refused as a code point only. -/
def codePointLimit : Nat := 0x80000000

def message : YamlFault → String
  | .invalid => "<yaml error>"
  | .boolean text => Text.quoted text
  | .emptyNumber => "string index out of range"
  | .number error => error.message
  | .calendar error => error.message
  | .timestamp => "'NoneType' object has no attribute 'groupdict'"
  | .timestampOfCollection => "expected string or bytes-like object, got 'list'"
  | .codePoint value =>
    if value < codePointLimit then "chr() arg not in range(0x110000)"
    else "Python int too large to convert to C int"

end YamlFault

end ApiLint
