import ApiLint.Document.Components

/-!
# Literals of a document

A literal is converted under the raw schema that governs it. The elements of a list are governed by
`items`, the members of a mapping by the property of their name or by the additional properties, and
references are followed. So a nested value takes the kind that its own schema asks for.
-/

namespace ApiLint

namespace Raw

/-- The elements of a value that has any: of a list, the characters of a text, the bytes, and the
keys of a mapping. -/
def elements? : Raw → Option (List Raw)
  | .list items => some items
  | .pair k v => some [k, v]
  | .set items => some items
  | .dict es => some (es.map (·.1))
  | .str s => some (s.toList.map fun c => .str c.toString)
  | .bytes bs => some (bs.map fun b => .int b.toNat)
  | _ => none

/-- Whether the characters of one text stand together in another. -/
def isInfix (part : List Char) : List Char → Bool
  | [] => part.isEmpty
  | c :: cs => part.isPrefixOf (c :: cs) || isInfix part cs

/-- Whether a text is found in a value: as an element, as a key, or as a part of a text. -/
def searchFor (text : String) : Raw → Except LoadError Bool
  | .str s => .ok (isInfix text.toList s.toList)
  | .bytes _ => .error .bytesSearched
  | r =>
    match r.elements? with
    | some elements => .ok (elements.any (·.sameKey (.str text)))
    | none => .error (.notSearchable r.kindPath)

end Raw

namespace Components

/-- Asks for the texts of values that stand for names. -/
def requireNames (rs : List Raw) : Except LoadError Unit :=
  (Raw.requireTexts rs).mapError .unwritable

/-- The raw schema of the elements of a list. -/
def itemSchema (governing : Option Entries) : Raw :=
  match governing with
  | some es => es.field "items"
  | none => .null

/-- The raw schema of a member of a mapping, given the value of `properties`, which may be anything
in a schema that is not yet examined. -/
def propertySchema? (name : String) : Raw → Except LoadError (Option Raw)
  | .dict es => .ok (Entries.field? es name)
  | properties => do
    if properties.isVoid then return none
    if ← properties.searchFor name then throw (.notMapping properties.kindPath "get")
    return none

/-- The raw schema of a member of a mapping. -/
def memberSchema (governing : Option Entries) (name : String) : Except LoadError Raw :=
  match governing with
  | none => .ok .null
  | some es => do
    match ← propertySchema? name (es.field "properties") with
    | some schema => return schema
    | none => return es.field "additionalProperties"

/-- Converts a value that is no collection, under the type and the format that govern it. -/
def plainLiteral (governing : Option Entries) (raw : Raw) : Except LoadError Literal :=
  let hint (name : String) : Raw := (governing.map fun es => es.field name).getD .null
  (Literal.ofRaw (hint "type") (hint "format") raw).mapError .literal

mutual

/-- Converts a value at a depth, governed by a raw schema. -/
def literalAt (cs : Components) (schema : Raw) (depth : Nat) (raw : Raw) :
    Except LoadError Literal :=
  if LoadError.literalDepthLimit < depth then .error .literalTooDeep
  else
    match raw with
    | .list items => do
      return .array (← literalItems cs (itemSchema (cs.governing? schema)) (depth + 1) items)
    | .dict es => do
      return .object (← literalMembers cs (cs.governing? schema) (depth + 1) [] es)
    | raw => plainLiteral (cs.governing? schema) raw

def literalItems (cs : Components) (schema : Raw) (depth : Nat) :
    List Raw → Except LoadError (List Literal)
  | [] => .ok []
  | x :: xs => do
    let item ← literalAt cs schema depth x
    return item :: (← literalItems cs schema depth xs)

/-- Converts the entries of a mapping, after the members converted before. -/
def literalMembers (cs : Components) (governing : Option Entries) (depth : Nat)
    (members : Fields Literal) : List (Raw × Raw) → Except LoadError (Fields Literal)
  | [] => .ok members
  | (key, value) :: es => do
    requireNames [key]
    let schema ← memberSchema governing key.text
    let member ← literalAt cs schema depth value
    literalMembers cs governing depth (members.insert key.text member) es

end

/-- Converts a literal of a raw schema. -/
def literal (cs : Components) (schema : Entries) (raw : Raw) : Except LoadError Literal :=
  cs.literalAt (.dict schema) 0 raw

/-- Converts the literals of an enumeration. -/
def literals (cs : Components) (schema : Entries) : List Raw → Except LoadError (List Literal)
  | [] => .ok []
  | x :: xs => do
    let value ← cs.literal schema x
    return value :: (← cs.literals schema xs)

end Components

end ApiLint
