import ApiLint.Fields
import ApiLint.Raw.Text

/-!
# Literals

A literal is a value embedded in a schema: a default, an example, or a member of an enumeration. It
is a scalar, an array, or an object whose members keep their order. The kind of a scalar fixes its
base type and its format tag; what the scalar holds plays no part in matching.
-/

namespace ApiLint

/-- The kinds of scalar literals. -/
inductive ScalarKind
  | integer | long | float | double | string | password | byte | binary | boolean | date | dateTime
  | null
  deriving DecidableEq, Repr, Inhabited

namespace ScalarKind

/-- The schema type that a scalar of the kind satisfies. No schema has the type of null. -/
def baseType : ScalarKind → String
  | .integer | .long => "integer"
  | .float | .double => "number"
  | .string | .password | .byte | .binary | .date | .dateTime => "string"
  | .boolean => "boolean"
  | .null => "null"

/-- The format that a scalar of the kind carries. -/
def format? : ScalarKind → Option String
  | .long => some "int64"
  | .float => some "float"
  | .password => some "password"
  | .byte => some "byte"
  | .binary => some "binary"
  | .date => some "date"
  | .dateTime => some "date-time"
  | .integer | .double | .string | .boolean | .null => none

end ScalarKind

/-- A literal of a schema. A host may put any raw value where a literal belongs; such a value is
`foreign`. -/
inductive Literal
  | scalar (kind : ScalarKind) (payload : Raw)
  | array (items : List Literal)
  | object (members : List (String × Literal))
  | foreign (raw : Raw)
  deriving Inhabited

namespace Literal

/-- The raw value in the place of a literal, if there is one. -/
def foreign? : Literal → Option Raw
  | .foreign raw => some raw
  | _ => none

/-- The schema type that the literal satisfies; the raw value itself for a foreign one. -/
def baseType : Literal → Except Raw String
  | .scalar kind _ => .ok kind.baseType
  | .array _ => .ok "array"
  | .object _ => .ok "object"
  | .foreign raw => .error raw

/-- The format that the literal carries. Only scalars carry one. -/
def format? : Literal → Option String
  | .scalar kind _ => kind.format?
  | _ => none

/-- An object with the members of two tables; those of the second win. -/
def ofMembers (members more : Fields Literal) : Literal :=
  .object (Fields.merge (Fields.ofList members) more)

end Literal

end ApiLint
