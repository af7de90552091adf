import ApiLint.Yaml.Lexer
import ApiLint.Yaml.Locations
import ApiLint.Yaml.Value

/-!
# YAML texts

A text holds one document or none. Its root is read once, and gives the value of the document as
well as the places of everything in it.
-/

namespace ApiLint.Yaml

/-- The root of the document in a text, if there is one. -/
def root (text : String) : Except YamlFault (Option Node) :=
  let outcome := Lexer.tokensOf text
  Node.ofTokens outcome.tokens outcome.fault

/-- The value of the document in a text; null if there is none. -/
def value (text : String) : Except YamlFault Raw := do
  match ← root text with
  | some node => node.toRaw
  | none => return .null

/-- The source map of a text. A text that is not YAML has none. -/
def sourceMap (text : String) : Except YamlFault SourceMap :=
  match root text with
  | .ok (some node) => .ok node.sourceMap
  | .ok none => .ok []
  | .error .invalid => .ok []
  | .error fault => .error fault

end ApiLint.Yaml
