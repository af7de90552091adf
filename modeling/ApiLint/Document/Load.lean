import ApiLint.Document.Literals

/-!
# Building the schemas of a document

Every component of a document becomes a tree. A reference in it is the name of a component, and
everything else is written in line. The parts of a schema are read in a fixed order, which decides
which of several errors is found: the required names, the properties, the items, the additional
properties, the compositions, the discriminator, and the literals.
-/

namespace ApiLint

/-- Whether a value is a mapping. -/
def Raw.isMapping : Raw → Bool
  | .dict _ => true
  | _ => false

namespace Components

/-- The elements of a value in which void stands for none. -/
def elementsOf (raw : Raw) : Except LoadError (List Raw) :=
  if raw.isVoid then .ok []
  else match raw.elements? with
    | some elements => .ok elements
    | none => .error (.notIterable raw.kindPath)

/-- The entries of a value in which void stands for none. -/
def entriesOf (raw : Raw) : Except LoadError Entries :=
  match raw with
  | .dict es => .ok es
  | _ => if raw.isVoid then .ok [] else .error (.notMapping raw.kindPath "items")

/-- The required names of a raw schema. -/
def requiredNames (es : Entries) : Except LoadError (List String) := do
  let elements ← elementsOf (es.field "required")
  requireNames elements
  return sortedNames (elements.map Raw.text)

/-- The discriminator of a raw schema: a property name, or a mapping with one. -/
def discriminatorOf (pointer : Pointer) : Raw → Except LoadError (Option Discriminator)
  | .null => .ok none
  | .str property => .ok (some ⟨property, []⟩)
  | .dict es =>
    match Entries.field? es "propertyName" with
    | some (.str property) => do
      let mapping ← entriesOf (Entries.field es "mapping")
      requireNames (mapping.flatMap fun e => [e.1, e.2])
      return some ⟨property, mapping.map fun e => (e.1.text, e.2.text)⟩
    | _ => .error (.discriminator (pointer.join ["discriminator"]))
  | _ => .error (.discriminator (pointer.join ["discriminator"]))

/-- Converts the literals of a raw schema: default, example, and enumeration. -/
def withLiterals (cs : Components) (es : Entries) (node : SchemaNode Schema) :
    Except LoadError (SchemaNode Schema) := do
  let node ← match es.field? "default" with
    | some raw => do pure { node with defaultValue := some (← cs.literal es raw) }
    | none => pure node
  let node ← match es.field? "example" with
    | some raw => do pure { node with exampleValue := some (← cs.literal es raw) }
    | none => pure node
  return { node with enumValues := ← cs.literals es (← elementsOf (es.field "enum")) }

/-- The node with type, format and nullability as a raw schema declares them. -/
def withHead (es : Entries) (node : SchemaNode Schema) : SchemaNode Schema :=
  { node with
    type := es.field "type"
    format := es.field "format"
    nullable := !(es.field "nullable").isVoid || !(es.field "x-nullable").isVoid }

/-- The error of a schema that is no mapping. -/
def notMapping {α : Type} (pointer : Pointer) (raw : Raw) : Except LoadError α :=
  .error (.schemaNotMapping pointer raw.kindName)

/-- What the keywords of a raw schema give that hold schemas; each may be in error of its own. -/
structure Parts where
  properties : Except LoadError (List (String × Schema)) := .ok []
  items : Except LoadError (Option Schema) := .ok none
  additional : Except LoadError (Option Schema) := .ok none
  oneOf : Except LoadError (List Schema) := .ok []
  anyOf : Except LoadError (List Schema) := .ok []
  allOf : Except LoadError (List Schema) := .ok []

/-- Reads the parts of a raw schema into a node, in the fixed order. What the node has already
stays, unless the raw schema declares it anew. -/
def fill (cs : Components) (pointer : Pointer) (node : SchemaNode Schema) (es : Entries)
    (parts : Parts) : Except LoadError (SchemaNode Schema) := do
  let required ← requiredNames es
  let properties ← parts.properties
  let items ← parts.items
  let additional ← parts.additional
  let oneOf ← parts.oneOf
  let anyOf ← parts.anyOf
  let allOf ← parts.allOf
  let discriminator ← discriminatorOf pointer (es.field "discriminator")
  withLiterals cs es { withHead es node with
    required
    properties := Fields.merge node.properties properties
    items := items <|> node.items
    additional := additional <|> node.additional
    oneOf := node.oneOf ++ oneOf
    anyOf := node.anyOf ++ anyOf
    allOf := node.allOf ++ allOf
    discriminator }

mutual

/-- The schema at a pointer: a reference, or a schema in line. -/
def schemaAt (cs : Components) (pointer : Pointer) : Raw → Except LoadError Schema
  | .dict es =>
    match Entries.field? es "$ref" with
    | some reference => (cs.resolve pointer reference).map .component
    | none => (cs.fill pointer .blank es (partsAt cs pointer es)).map .inline
  | raw => notMapping pointer raw

/-- The parts of a raw schema at a pointer. Null declares no items, and only a mapping declares
additional properties. -/
def partsAt (cs : Components) (pointer : Pointer) : List (Raw × Raw) → Parts
  | [] => {}
  | (key, raw) :: es =>
    let rest := partsAt cs pointer es
    match key with
    | .str "properties" => { rest with properties := propertiesAt cs (pointer.push "properties") raw }
    | .str "items" =>
      { rest with
        items := if raw.isNull then .ok none else (schemaAt cs (pointer.push "items") raw).map some }
    | .str "additionalProperties" =>
      { rest with
        additional :=
          if raw.isMapping then (schemaAt cs (pointer.push "additionalProperties") raw).map some
          else .ok none }
    | .str "oneOf" => { rest with oneOf := membersAt cs (pointer.push "oneOf") raw }
    | .str "anyOf" => { rest with anyOf := membersAt cs (pointer.push "anyOf") raw }
    | .str "allOf" => { rest with allOf := membersAt cs (pointer.push "allOf") raw }
    | _ => rest

/-- The schemas of the properties. -/
def propertiesAt (cs : Components) (pointer : Pointer) :
    Raw → Except LoadError (List (String × Schema))
  | .dict es => namedSchemasAt cs pointer es
  | raw => (entriesOf raw).map fun _ => []

def namedSchemasAt (cs : Components) (pointer : Pointer) :
    List (Raw × Raw) → Except LoadError (List (String × Schema))
  | [] => .ok []
  | (key, raw) :: es => do
    requireNames [key]
    let schema ← schemaAt cs (pointer.push key.text) raw
    return (key.text, schema) :: (← namedSchemasAt cs pointer es)

/-- The members of a composition. Outside a list there are no mappings. -/
def membersAt (cs : Components) (pointer : Pointer) : Raw → Except LoadError (List Schema)
  | .list raws => schemasAt cs pointer 0 raws
  | raw => do
    match ← elementsOf raw with
    | [] => return []
    | first :: _ => notMapping (pointer.push (writtenNat 0)) first

/-- The schemas of a list, the first of which has the given index. -/
def schemasAt (cs : Components) (pointer : Pointer) (index : Nat) :
    List Raw → Except LoadError (List Schema)
  | [] => .ok []
  | raw :: raws => do
    let schema ← schemaAt cs (pointer.push (writtenNat index)) raw
    return schema :: (← schemasAt cs pointer (index + 1) raws)

end

/-! ### Components -/

/-- Adds an entry to the components loaded before: a component takes the shape at the end of its
chain of aliases. Entries of one name give their shapes to one component in turn. -/
def addComponent (cs : Components) (loaded : LoadedDocument) (key body : Raw) :
    Except LoadError LoadedDocument := do
  let name := key.text
  let pointer := cs.pointerTo name
  let (target, shape) ← cs.aliasTarget name body
  let node := match Fields.find? loaded.components name with
    | some component => component.node
    | none => { SchemaNode.blank with reference := some name }
  match shape with
  | .dict es =>
    let node ← cs.fill pointer node es (cs.partsAt pointer es)
    return { loaded with
      components := Fields.insert loaded.components name ⟨pointer, node⟩
      aliases := if target = name then loaded.aliases
        else Fields.insert loaded.aliases name target }
  | raw => notMapping pointer raw

/-- Loads entries behind those loaded before. -/
def load (cs : Components) : List (Raw × Raw) → LoadedDocument → Except LoadError LoadedDocument
  | [], loaded => .ok loaded
  | (key, body) :: es, loaded => do load cs es (← cs.addComponent loaded key body)

end Components

namespace LoadedDocument

/-- The components of a document with their schemas. All names are written before any schema is
read. -/
def ofRaw (document : Raw) : Except LoadError LoadedDocument := do
  let cs ← Components.ofDocument document
  Components.requireNames (cs.entries.map (·.1))
  cs.load cs.entries { version := cs.version }

/-- The name of the logger of loaded documents. -/
def logger : String := "schema_lint.parsers.document_loader"

/-- The record of a document that was loaded. -/
def record (d : LoadedDocument) : LogRecord :=
  .debug logger s!"Loaded {d.components.length} component schema(s) from {d.version.text}"

end LoadedDocument

end ApiLint
