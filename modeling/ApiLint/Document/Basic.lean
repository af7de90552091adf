import ApiLint.Log.Record
import ApiLint.Pointer
import ApiLint.Schema.Node
import ApiLint.Version

/-!
# Loaded documents

The component schemas of a document. A schema below a component is either written in line or stands
for a component by its name, so that the schemas of a document are finite trees although components
may refer to each other in cycles.
-/

namespace ApiLint

/-- A schema in a document. -/
inductive Schema
  | component (name : String)
  | inline (node : SchemaNode Schema)

namespace Schema

instance : Inhabited Schema := ⟨.component ""⟩

end Schema

/-- A component with the pointer to its declaration and its shape. -/
structure Component where
  pointer : Pointer
  node : SchemaNode Schema
  deriving Inhabited

/-- The components of a document in order of declaration, and the aliases among them, each with the
component that gives it its shape. -/
structure LoadedDocument where
  version : Version
  components : Fields Component := []
  aliases : Fields String := []
  deriving Inhabited

/-- Why the schemas of a document cannot be built. -/
inductive LoadError
  | version (error : VersionError)
  /-- What holds the schemas is no mapping. -/
  | schemasNotMapping (path : List String)
  | schemaNotMapping (pointer : Pointer) (kind : String)
  | referenceNotText (pointer : Pointer)
  /-- The reference does not lead to a component of the document. -/
  | referenceElsewhere (reference : String) (pointer container : Pointer)
  | referenceUnresolved (reference : String) (pointer : Pointer)
  | aliasCycle (pointer : Pointer) (chain : List String)
  | discriminator (pointer : Pointer)
  | literalTooDeep
  | literal (error : ConversionError)
  /-- The name of a component is the text of a key that is no text. -/
  | componentKey (name : String)
  /-- A value of the kind has no elements. -/
  | notIterable (kind : String)
  /-- A value of the kind cannot be searched for an element. -/
  | notSearchable (kind : String)
  /-- Bytes cannot be searched for a text. -/
  | bytesSearched
  /-- A value of the kind is no mapping, and was asked for a part of one. -/
  | notMapping (kind part : String)
  /-- The text of a value that stands for a name cannot be written. -/
  | unwritable (error : NumberError)

namespace LoadError

/-- The greatest depth of a literal. -/
def literalDepthLimit : Nat := 64

def message : LoadError → String
  | .version error => error.message
  | .schemasNotMapping path => "'" ++ "/".intercalate path ++ "' must be a mapping of schemas"
  | .schemaNotMapping pointer kind => s!"Schema at {pointer} must be a mapping, got {kind}"
  | .referenceNotText pointer => s!"$ref must be a string at {pointer}"
  | .referenceElsewhere reference pointer container =>
    s!"Unsupported reference '{reference}' at {pointer}: only local "
      ++ s!"'{container}/<name>' references are resolved"
  | .referenceUnresolved reference pointer => s!"Unresolved reference '{reference}' at {pointer}"
  | .aliasCycle pointer chain => s!"Circular alias chain at {pointer}: " ++ " -> ".intercalate chain
  | .discriminator pointer => s!"Invalid discriminator at {pointer}"
  | .literalTooDeep => s!"Literal nested deeper than {literalDepthLimit} levels"
  | .literal error => error.message
  | .componentKey name => Text.quoted name
  | .notIterable kind => s!"'{kind}' object is not iterable"
  | .notSearchable kind => s!"argument of type '{kind}' is not iterable"
  | .bytesSearched => "a bytes-like object is required, not 'str'"
  | .notMapping kind part => s!"'{kind}' object has no attribute '{part}'"
  | .unwritable error => error.message

/-- Whether the error belongs to the document, so that a linter reports it; any other error ends the
examination. -/
def isReported : LoadError → Bool
  | .version error => error.isReported
  | .literal .numberTooLarge | .literal (.key _) => false
  | .componentKey _ | .notIterable _ | .notSearchable _ | .bytesSearched | .notMapping ..
  | .unwritable _ => false
  | _ => true

end LoadError

end ApiLint
