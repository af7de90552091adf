import ApiLint.Number.Written
import ApiLint.Text.Quoted

/-!
# Console output

What is written to the standard streams, in the order in which it is written. The order within a
stream is what a reader of that stream sees. The standard output has an encoding, and a text with a
character that this lacks is not written to it.
-/

namespace ApiLint

/-- A standard stream for output: one for results, one for complaints. -/
inductive ConsoleStream
  | out | err
  deriving DecidableEq, Repr, Inhabited

/-- A text written to a stream. -/
structure ConsoleText where
  stream : ConsoleStream
  text : String
  deriving DecidableEq, Repr, Inhabited

/-- The texts written to both streams. -/
abbrev Console := List ConsoleText

namespace Console

/-- A line written to a stream. -/
def line (stream : ConsoleStream) (text : String) : Console := [⟨stream, text ++ "\n"⟩]

/-- Lines written to a stream. -/
def lines (stream : ConsoleStream) (texts : List String) : Console := texts.flatMap (line stream)

/-- All that is written to a stream. -/
def textOf (c : Console) (stream : ConsoleStream) : String :=
  String.join ((c.filter (·.stream == stream)).map (·.text))

end Console

/-! ### Encodings -/

/-- The encoding of the standard output: its name, the characters that it has, and what it says
about those that it lacks. -/
structure Encoding where
  name : String
  has : Char → Bool
  reason : String

/-- Why a text is not written in an encoding: the first run of characters that this lacks, and the
position of the run. -/
structure EncodingError where
  encoding : String
  position : Nat
  characters : List Char
  reason : String
  deriving DecidableEq, Repr

def EncodingError.message (e : EncodingError) : String :=
  let place :=
    match e.characters with
    | [c] =>
      s!"character '{String.ofList (Text.escapedPoint (Text.codePointOf c))}' in position "
        ++ writtenInt e.position
    | cs =>
      s!"characters in position {writtenInt e.position}-"
        ++ writtenInt (e.position + cs.length - 1 : Int)
  s!"'{e.encoding}' codec can't encode {place}: {e.reason}"

namespace Encoding

/-- UTF-8 has all characters, but no half of a surrogate pair. -/
def utf8 : Encoding := ⟨"utf-8", fun c => (Text.surrogate? c).isNone, "surrogates not allowed"⟩

/-- Writes a text. -/
def check (e : Encoding) (text : String) : Except EncodingError Unit :=
  let taken := text.toList.takeWhile e.has
  match (text.toList.drop taken.length).takeWhile (!e.has ·) with
  | [] => .ok ()
  | cs => .error ⟨e.name, taken.length, cs, e.reason⟩

/-- Writes lines to the standard output, up to one that the encoding has no characters for. -/
def writeLines (e : Encoding) : List String → Console × Except EncodingError Unit
  | [] => ([], .ok ())
  | text :: texts =>
    match e.check text with
    | .error error => ([], .error error)
    | .ok () =>
      let (console, outcome) := writeLines e texts
      (Console.line .out text ++ console, outcome)

/-- What comes through of texts that are written one by one, each whatever became of the others. -/
def pass (e : Encoding) (console : Console) : Console :=
  console.filter fun t => t.stream == .err || (e.check t.text).toOption.isSome

end Encoding

end ApiLint
