import ApiLint.Fields
import ApiLint.Raw.Text
import ApiLint.Pointer

/-!
# The envelope of a document

The shape that a document must have before its schemas are built. The examination lists every place
where the document departs from the shape, in the order of the paths to these places. Where one of
several shapes would do, a value that has none of them is one issue. The examination fails if it has
to show a value that has no text.
-/

namespace ApiLint

/-- A place where a document departs from the shape, and in which way. -/
structure EnvelopeIssue where
  path : List String
  message : String
  deriving DecidableEq, Repr

namespace EnvelopeIssue

/-- The pointer to the place. -/
def pointer (i : EnvelopeIssue) : Pointer := Pointer.root.join i.path

/-- The order of issues: by the segments of their paths. -/
def le (i j : EnvelopeIssue) : Bool := !j.path.lex i.path

end EnvelopeIssue

namespace Envelope

/-! ### The types of values -/

/-- The types of values that the shape tells apart. -/
inductive ValueType
  | object | array | string | number | boolean
  deriving DecidableEq, Repr

/-- The name of a type in messages. -/
def ValueType.label : ValueType → String
  | .object => "object"
  | .array => "array"
  | .string => "string"
  | .number => "number"
  | .boolean => "boolean"

/-- Whether a value is of a type. Booleans are no numbers. -/
def ValueType.holds : ValueType → Raw → Bool
  | .object, .dict _ => true
  | .array, .list _ => true
  | .string, .str _ => true
  | .number, .int _ => true
  | .number, .float _ => true
  | .boolean, .bool _ => true
  | _, _ => false

/-- The issue of a value that is of none of the types. -/
def notOfType (path : List String) (types : List ValueType) (value : Raw) : EnvelopeIssue :=
  ⟨path, s!"{value.inspect} is not of type "
    ++ commaSeparated (types.map fun t => Text.quoted t.label)⟩

/-- The value must be of one of the types. -/
def ofType (types : List ValueType) (path : List String) (value : Raw) : List EnvelopeIssue :=
  if types.any (·.holds value) then [] else [notOfType path types value]

/-- The issue of a value that has none of several shapes. -/
def noAlternative (path : List String) (value : Raw) : EnvelopeIssue :=
  ⟨path, s!"{value.inspect} is not valid under any of the given schemas"⟩

/-! ### Parts of a schema -/

/-- The types that a schema may declare. -/
def schemaTypes : List String := ["string", "number", "integer", "boolean", "object", "array"]

/-- Whether a value is one of the texts. -/
def isOneOf (texts : List String) : Raw → Bool
  | .str s => texts.contains s
  | _ => false

/-- A declared type must be a text, and one of the type names. -/
def typeIssues (path : List String) (value : Raw) : List EnvelopeIssue :=
  ofType [.string] path value
    ++ if isOneOf schemaTypes value then []
      else [⟨path, s!"{value.inspect} is not one of {Raw.inspectNames schemaTypes}"⟩]

/-- The issues of the elements of a list, the first of which has the given index. -/
def elementIssues (issues : List String → Raw → List EnvelopeIssue) (path : List String)
    (index : Nat) : List Raw → List EnvelopeIssue
  | [] => []
  | x :: xs => issues (path ++ [writtenNat index]) x ++ elementIssues issues path (index + 1) xs

/-- The required names must be a list of texts. -/
def requiredIssues (path : List String) : Raw → List EnvelopeIssue
  | .list items => elementIssues (ofType [.string]) path 0 items
  | value => [notOfType path [.array] value]

/-- Whether a mapping has only texts as values. -/
def isTextMapping : Raw → Bool
  | .dict es => es.all fun e => ValueType.string.holds e.2
  | _ => false

/-- Whether a value is a discriminator: a text, or a mapping with the name of a property and perhaps
a mapping of texts. -/
def isDiscriminator : Raw → Bool
  | .str _ => true
  | .dict es =>
    ((Entries.field? es "propertyName").any ValueType.string.holds)
      && ((Entries.field? es "mapping").all isTextMapping)
  | _ => false

def discriminatorIssues (path : List String) (value : Raw) : List EnvelopeIssue :=
  if isDiscriminator value then [] else [noAlternative path value]

/-- The path of a value under a key of a mapping. The null key adds no segment. -/
def underKey (path : List String) : Raw → List String
  | .null => path
  | key => path ++ [key.text]

/-! ### Schemas -/

/-- What the shape asks of the value of a keyword. -/
inductive Keyword
  | plain (types : List ValueType)
  | type | required | discriminator
  | schema | schemaOrBoolean | schemaMap | schemaList

/-- The keywords of a schema. -/
def keywords : Fields Keyword :=
  [("$ref", .plain [.string]), ("type", .type), ("format", .plain [.string]),
    ("properties", .schemaMap), ("items", .schema), ("additionalProperties", .schemaOrBoolean),
    ("oneOf", .schemaList), ("anyOf", .schemaList), ("allOf", .schemaList),
    ("required", .required), ("enum", .plain [.array]), ("nullable", .plain [.boolean]),
    ("x-nullable", .plain [.boolean]), ("discriminator", .discriminator)]

/-- The keyword of a key, with its name. -/
def keyword? : Raw → Option (String × Keyword)
  | .str name => (keywords.find? name).map fun keyword => (name, keyword)
  | _ => none

mutual

/-- A schema must be a mapping whose keywords have values of the right shape. -/
def schemaIssues (path : List String) : Raw → List EnvelopeIssue
  | .dict es => keywordsIssues path es
  | value => [notOfType path [.object] value]

/-- The issues of the keywords of a schema. Other keys may have any value. -/
def keywordsIssues (path : List String) : List (Raw × Raw) → List EnvelopeIssue
  | [] => []
  | (key, value) :: es =>
    (match keyword? key with
      | none => []
      | some (name, keyword) =>
        let path := path ++ [name]
        match keyword with
        | .plain types => ofType types path value
        | .type => typeIssues path value
        | .required => requiredIssues path value
        | .discriminator => discriminatorIssues path value
        | .schema => schemaIssues path value
        | .schemaOrBoolean =>
          if ValueType.boolean.holds value || (schemaIssues path value).isEmpty then []
          else [noAlternative path value]
        | .schemaMap => schemaMapIssues path value
        | .schemaList => schemaListIssues path value)
    ++ keywordsIssues path es

/-- A mapping of names to schemas. -/
def schemaMapIssues (path : List String) : Raw → List EnvelopeIssue
  | .dict es => namedSchemasIssues path es
  | value => [notOfType path [.object] value]

def namedSchemasIssues (path : List String) : List (Raw × Raw) → List EnvelopeIssue
  | [] => []
  | (key, value) :: es =>
    schemaIssues (underKey path key) value ++ namedSchemasIssues path es

/-- A list of schemas. -/
def schemaListIssues (path : List String) : Raw → List EnvelopeIssue
  | .list items => schemasIssues path 0 items
  | value => [notOfType path [.array] value]

/-- The issues of the schemas of a list, the first of which has the given index. -/
def schemasIssues (path : List String) (index : Nat) : List Raw → List EnvelopeIssue
  | [] => []
  | x :: xs =>
    schemaIssues (path ++ [writtenNat index]) x ++ schemasIssues path (index + 1) xs

end

/-! ### Documents -/

/-- The name of the shape of documents, and its title. -/
def shapeName : String := "document"

def shapeTitle : String := "API description envelope"

/-- The components of a document must be a mapping, and the schemas among them a mapping of
schemas. -/
def componentsIssues (path : List String) : Raw → List EnvelopeIssue
  | .dict es =>
    match Entries.field? es "schemas" with
    | some schemas => schemaMapIssues (path ++ ["schemas"]) schemas
    | none => []
  | value => [notOfType path [.object] value]

/-- The issues of the fields of a document. -/
def fieldsIssues (es : Entries) : List EnvelopeIssue :=
  let issues (name : String) (examine : List String → Raw → List EnvelopeIssue) :=
    match es.field? name with
    | some value => examine [name] value
    | none => []
  issues "openapi" (ofType [.string])
    ++ issues "swagger" (ofType [.string, .number])
    ++ issues "components" componentsIssues
    ++ issues "definitions" schemaMapIssues

/-- The issues of a document in the order of examination. -/
def documentIssues : Raw → List EnvelopeIssue
  | .dict es =>
    (if (Entries.field? es "openapi").isSome || (Entries.field? es "swagger").isSome then []
      else [noAlternative [] (.dict es)])
    ++ fieldsIssues es
  | value => [notOfType [] [.object] value]

/-- The issues of a document, ordered by their paths. -/
def orderedIssues (document : Raw) : List EnvelopeIssue :=
  (documentIssues document).mergeSort EnvelopeIssue.le

/-! ### Values that are shown

Every issue shows its value, and the keys on its path. Where one of several shapes would do, the
examination shows a value that has not the first of them, even if it has another one. -/

/-- A value is shown that is of none of the types. -/
def shownUnless (types : List ValueType) (value : Raw) : List Raw :=
  if types.any (·.holds value) then [] else [value]

/-- The values that are shown of required names. -/
def requiredShown : Raw → List Raw
  | .list items => items.flatMap (shownUnless [.string])
  | value => [value]

mutual

/-- The values that are shown of a schema. -/
def schemaShown : Raw → List Raw
  | .dict es => keywordsShown es
  | value => [value]

def keywordsShown : List (Raw × Raw) → List Raw
  | [] => []
  | (key, value) :: es =>
    (match keyword? key with
      | none => []
      | some (_, keyword) =>
        match keyword with
        | .plain types => shownUnless types value
        | .type => if isOneOf schemaTypes value then [] else [value]
        | .required => requiredShown value
        | .discriminator => shownUnless [.string] value
        | .schema => schemaShown value
        | .schemaOrBoolean =>
          if ValueType.boolean.holds value then [] else value :: schemaShown value
        | .schemaMap => schemaMapShown value
        | .schemaList => schemaListShown value)
    ++ keywordsShown es

/-- The values that are shown of a mapping of names to schemas. -/
def schemaMapShown : Raw → List Raw
  | .dict es => namedSchemasShown es
  | value => [value]

/-- The values that are shown of named schemas; a name is shown if its schema has issues. -/
def namedSchemasShown : List (Raw × Raw) → List Raw
  | [] => []
  | (key, value) :: es =>
    (if (schemaIssues [] value).isEmpty then [] else [key]) ++ schemaShown value
      ++ namedSchemasShown es

/-- The values that are shown of a list of schemas. -/
def schemaListShown : Raw → List Raw
  | .list items => schemasShown items
  | value => [value]

def schemasShown : List Raw → List Raw
  | [] => []
  | x :: xs => schemaShown x ++ schemasShown xs

end

/-- The values that are shown of components. -/
def componentsShown : Raw → List Raw
  | .dict es =>
    match Entries.field? es "schemas" with
    | some schemas => schemaMapShown schemas
    | none => []
  | value => [value]

/-- The values that are shown of the fields of a document. -/
def fieldsShown (es : Entries) : List Raw :=
  let shown (name : String) (examine : Raw → List Raw) :=
    match es.field? name with
    | some value => examine value
    | none => []
  shown "openapi" (shownUnless [.string])
    ++ shown "swagger" (shownUnless [.string, .number])
    ++ shown "components" componentsShown
    ++ shown "definitions" schemaMapShown

/-- The values that the examination of a document shows. -/
def documentShown : Raw → List Raw
  | .dict es =>
    (if (Entries.field? es "openapi").isSome || (Entries.field? es "swagger").isSome then []
      else [.dict es])
    ++ fieldsShown es
  | value => [value]

/-- Examines a document: its issues, ordered by their paths, unless a value that is shown has no
text. -/
def issues (document : Raw) : Except NumberError (List EnvelopeIssue) :=
  (Raw.requireTexts (documentShown document)).map fun _ => orderedIssues document

end Envelope

end ApiLint
