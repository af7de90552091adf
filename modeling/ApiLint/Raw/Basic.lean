import ApiLint.Calendar.DateTime
import ApiLint.Number.Binary64

/-!
# Raw values

A raw value is what a parsed document is made of, before anything is known about its meaning:
scalars, dates, lists, and mappings that keep the order of their entries. Keys of a mapping are raw
values themselves; a key is found by equality of keys, for which `1`, `1.0` and `true` are one key.
-/

namespace ApiLint

/-- A parsed value. -/
inductive Raw
  | null
  | bool (value : Bool)
  | int (value : Int)
  | float (value : Binary64)
  | str (value : String)
  | bytes (value : List UInt8)
  | date (value : Date)
  | dateTime (value : DateTime)
  | list (items : List Raw)
  /-- An entry of an ordered mapping that allows repeated keys. -/
  | pair (key value : Raw)
  | set (items : List Raw)
  | dict (entries : List (Raw × Raw))
  deriving Inhabited

/-- The entries of a mapping, in order. -/
abbrev Entries := List (Raw × Raw)

namespace Raw

/-- A mapping with text keys. -/
def ofFields (fields : List (String × Raw)) : Raw :=
  .dict (fields.map fun (name, value) => (.str name, value))

/-- The short name of the kind of a value. -/
def kindName : Raw → String
  | .null => "NoneType"
  | .bool _ => "bool"
  | .int _ => "int"
  | .float _ => "float"
  | .str _ => "str"
  | .bytes _ => "bytes"
  | .date _ => "date"
  | .dateTime _ => "datetime"
  | .list _ => "list"
  | .pair .. => "tuple"
  | .set _ => "set"
  | .dict _ => "dict"

/-- The name of the kind of a value with the family in front, for the kinds of calendar values. -/
def kindPath (r : Raw) : String :=
  match r with
  | .date _ | .dateTime _ => "datetime." ++ r.kindName
  | _ => r.kindName

/-- Whether a value stands for nothing: null, false, a zero, or an empty text or collection. -/
def isVoid : Raw → Bool
  | .null => true
  | .bool b => !b
  | .int n => n == 0
  | .float x => x.isZero
  | .str s => s.isEmpty
  | .bytes bs => bs.isEmpty
  | .list xs => xs.isEmpty
  | .set xs => xs.isEmpty
  | .dict es => es.isEmpty
  | .date _ | .dateTime _ | .pair .. => false

/-- Whether the value may be a key: collections may not. -/
def isKey : Raw → Bool
  | .list _ | .set _ | .dict _ => false
  | .pair k v => k.isKey && v.isKey
  | _ => true

/-- A boolean as the number it equals as a key. -/
def boolInt (b : Bool) : Int := if b then 1 else 0

/-- Whether two values are the same key. Numbers of any kind are compared by value, times by the
moment they name; not-a-number is one key. -/
def sameKey : Raw → Raw → Bool
  | .null, .null => true
  | .str s, .str t => s == t
  | .bytes b, .bytes c => b == c
  | .date d, .date e => d == e
  | .dateTime t, .dateTime u => t.sameMoment u
  | .bool b, .bool c => b == c
  | .int m, .int n => m == n
  | .bool b, .int n | .int n, .bool b => boolInt b == n
  | .float .nan, .float .nan => true
  | .float x, .float y => x.numEq y
  | .float x, .int n | .int n, .float x => x.isInt n
  | .float x, .bool b | .bool b, .float x => x.isInt (boolInt b)
  | .pair k v, .pair l w => k.sameKey l && v.sameKey w
  | _, _ => false

@[simp] theorem sameKey_str (s t : String) : (str s).sameKey (.str t) = (s == t) := rfl

end Raw

namespace Entries

/-- The value of a key. -/
def find? (es : Entries) (key : Raw) : Option Raw :=
  (List.find? (fun e => e.1.sameKey key) es).map (·.2)

/-- The value of a text key. -/
def field? (es : Entries) (name : String) : Option Raw := es.find? (.str name)

/-- The value of a text key, null if there is none. -/
def field (es : Entries) (name : String) : Raw := (es.field? name).getD .null

/-- Gives a key a value: at the place of the key if there is one, otherwise at the end. -/
def insert (es : Entries) (key value : Raw) : Entries :=
  match es with
  | [] => [(key, value)]
  | e :: rest => if e.1.sameKey key then (e.1, value) :: rest else e :: insert rest key value

/-- The mapping of entries given in order; of equal keys the first gives the place and the last the
value. -/
def ofList (es : List (Raw × Raw)) : Entries := es.foldl (fun acc e => insert acc e.1 e.2) []

/-- The distinct keys of a list, in order of first appearance. -/
def distinctKeys (keys : List Raw) : List Raw :=
  (ofList (keys.map fun k => (k, .null))).map (·.1)

end Entries

end ApiLint
