import ApiLint.Fault
import ApiLint.Schema.Graph

/-!
# Matching literals against schemas

A schema without a type accepts every literal, a nullable one accepts null, and one of type `object`
accepts a plain text, which may encode an object. Otherwise the base type of the literal must be the
type of the schema, and a scalar must carry exactly the format of the schema. A mismatch ends the
matter at its place; below a match, the elements of an array are governed by `items`, and the
members of an object by the property of their name or by the additional properties.
-/

namespace ApiLint.Matching

/-- The rule that reports mismatches. -/
def ruleName : String := "TypeMismatch"

def mismatchMessage : String := "Data and type mismatch found."

/-- The finding of a literal that does not fit. -/
def mismatch (pointer : Pointer) : Finding := ⟨ruleName, pointer, mismatchMessage, .typeMismatch⟩

/-- Whether the format of a schema is the one that a literal carries; both may be absent. -/
def sameFormat (carried : Option String) (declared : Raw) : Bool :=
  match carried with
  | some format => declared.isText format
  | none => declared.isNull

/-- Whether a schema accepts the scalar as it is, whatever its base type. -/
def acceptsOutright (node : Node) (kind : ScalarKind) : Bool :=
  (node.nullable && kind == .null) || (node.type.isText "object" && kind == .string)

/-- Whether the type of a schema and its format are those of the scalar. -/
def fitsScalar (node : Node) (kind : ScalarKind) : Bool :=
  node.type.isText kind.baseType && sameFormat kind.format? node.format

/-- The schema that governs a member of an object. -/
def memberSchema? (node : Node) (name : String) : Option Child :=
  match node.property? name with
  | some child => some child
  | none => node.additional

mutual

/-- The mismatches between a schema and a literal, each at its own pointer. -/
def mismatches (g : Graph) (schema : Child) (pointer : Pointer) : Literal →
    Except Fault (List Finding)
  | .scalar kind _ =>
    match g.resolve schema with
    | .error raw => .error (.notASchema raw.kindPath "type")
    | .ok (_, node) =>
      if node.type.isNull || acceptsOutright node kind || fitsScalar node kind then .ok []
      else .ok [mismatch pointer]
  | .array items =>
    match g.resolve schema with
    | .error raw => .error (.notASchema raw.kindPath "type")
    | .ok (_, node) =>
      if node.type.isNull then .ok []
      else if node.type.isText "array" then
        match node.items with
        | some child => itemMismatches g child pointer 0 items
        | none => .ok []
      else .ok [mismatch pointer]
  | .object members =>
    match g.resolve schema with
    | .error raw => .error (.notASchema raw.kindPath "type")
    | .ok (_, node) =>
      if node.type.isNull then .ok []
      else if node.type.isText "object" then memberMismatches g node pointer members
      else .ok [mismatch pointer]
  | .foreign value =>
    match g.resolve schema with
    | .error raw => .error (.notASchema raw.kindPath "type")
    | .ok (_, node) => if node.type.isNull then .ok [] else .error (.ofForeign value)

/-- The mismatches of the elements of an array, the first of which has the given index. -/
def itemMismatches (g : Graph) (schema : Child) (pointer : Pointer) (index : Nat) :
    List Literal → Except Fault (List Finding)
  | [] => .ok []
  | item :: rest => do
    let here ← mismatches g schema (pointer.join [writtenNat index]) item
    let others ← itemMismatches g schema pointer (index + 1) rest
    return here ++ others

/-- The mismatches of the members of an object. Members that no schema governs are skipped. -/
def memberMismatches (g : Graph) (node : Node) (pointer : Pointer) :
    List (String × Literal) → Except Fault (List Finding)
  | [] => .ok []
  | (name, member) :: rest => do
    let here ← match memberSchema? node name with
      | some child => mismatches g child (pointer.join [name]) member
      | none => .ok []
    let others ← memberMismatches g node pointer rest
    return here ++ others

end

/-- Whether a schema accepts a literal. -/
def isMatch (g : Graph) (schema : Child) (value : Literal) : Except Fault Bool := do
  return (← mismatches g schema Pointer.root value).isEmpty

theorem isMatch_eq_ok_true_iff {g : Graph} {schema : Child} {value : Literal} :
    isMatch g schema value = .ok true ↔ mismatches g schema Pointer.root value = .ok [] := by
  rw [isMatch]
  cases mismatches g schema Pointer.root value with
  | error fault => exact ⟨nofun, nofun⟩
  | ok fs => cases fs <;> simp [bind, Except.bind, pure, Except.pure]

end ApiLint.Matching
