import ApiLint.Yaml.Cursor

/-!
# Tokens

The tokens of a YAML text: the indicators and the scalars, and the beginnings and ends of block
collections that the indentation stands for.
-/

namespace ApiLint.Yaml

/-- A directive in front of a document. -/
inductive Directive
  | version (major : Nat)
  | tagHandle (handle head : String)
  | reserved
  deriving DecidableEq, Repr

inductive Token
  | directive (directive : Directive)
  | documentStart | documentEnd | streamEnd
  | blockSequenceStart | blockMappingStart | blockEnd
  | flowSequenceStart | flowSequenceEnd | flowMappingStart | flowMappingEnd
  | blockEntry | flowEntry
  | key | value
  | reference (name : String)
  | anchor (name : String)
  /-- A tag: a handle, if there is one, and what stands behind it. -/
  | tag (handle : Option String) (suffix : String)
  | scalar (text : String) (plain : Bool)
  deriving DecidableEq, Repr

/-- A token with the marks of its beginning and its end. -/
structure PlacedToken where
  token : Token
  start : Mark
  stop : Mark
  deriving DecidableEq, Repr

end ApiLint.Yaml
