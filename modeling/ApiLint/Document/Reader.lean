import ApiLint.Files.Tree
import ApiLint.Files.Utf8
import ApiLint.Log.Record
import ApiLint.Yaml

/-!
# Reading documents

A document is read from a text or from a file. Its root must be a mapping; an empty text is an empty
mapping. A reader may keep the documents of files that it has read, and apart from them the places
of their values; it then gives them again whatever becomes of the file, as long as the path leads to
one. A path that the system refuses to look up is an error that belongs to no document.
-/

namespace ApiLint

/-- A document as it is read, with the places of its values. -/
structure SourceDocument where
  entries : Entries
  sourceMap : SourceMap
  deriving Inhabited

/-- Why a document cannot be read. -/
inductive ReadError
  | notFound (path : FilePath)
  | notFile (path : FilePath)
  /-- The system refuses to look the path up. -/
  | refused (refusal : Refusal)
  | unreadable (path : FilePath) (reason : String)
  | notText (path : FilePath) (error : Utf8Error)
  /-- The text is not YAML; the origin is the file or the fact that there is none. -/
  | notYaml (origin : String)
  | rootNotMapping (origin : String)
  /-- A scalar of the text has no value. -/
  | scalar (fault : YamlFault)
  /-- The document of the path is kept, but not the places of its values. -/
  | unplaced (path : FilePath)

namespace ReadError

def message : ReadError → String
  | .notFound path => s!"Document not found: {path.text}"
  | .notFile path => s!"Path is not a file: {path.text}"
  | .refused refusal => refusal.message
  | .unreadable path reason => s!"Failed to read document {path.text}: {reason}"
  | .notText path error => s!"Failed to read document {path.text}: {error.message}"
  | .notYaml origin => s!"Failed to parse {origin}: {YamlFault.invalid.message}"
  | .rootNotMapping origin => s!"Document root of {origin} must be a mapping/object"
  | .scalar fault => fault.message
  | .unplaced path => s!"PosixPath({Text.quoted path.text})"

/-- Whether the error belongs to the document, so that a linter reports it; any other error ends the
examination. -/
def isReported : ReadError → Bool
  | .refused _ | .scalar _ | .unplaced _ => false
  | _ => true

/-- The error of a faulty text. -/
def ofFault (origin : String) : YamlFault → ReadError
  | .invalid => .notYaml origin
  | fault => .scalar fault

end ReadError

namespace SourceDocument

/-- Reads a document from a text of some origin. -/
def ofTextFrom (origin text : String) : Except ReadError SourceDocument := do
  let value ← (Yaml.value text).mapError (ReadError.ofFault origin)
  let entries ← match value with
    | .null => .ok []
    | .dict es => .ok es
    | _ => .error (.rootNotMapping origin)
  let sourceMap ← (Yaml.sourceMap text).mapError .scalar
  return ⟨entries, sourceMap⟩

/-- Reads a document from a text of no file. -/
def ofText (text : String) : Except ReadError SourceDocument := ofTextFrom "document content" text

/-- Reads a document from the content of a file. -/
def ofFile (path : FilePath) (content : List UInt8) : Except ReadError SourceDocument := do
  let text ← (Utf8.textOf content).mapError (.notText path)
  ofTextFrom s!"document {path.text}" text

/-- Reads a document from what stands at a path. -/
def ofEntry (path : FilePath) : FileEntry → Except ReadError SourceDocument
  | .directory | .special => .error (.notFile path)
  | .unreadable reason => .error (.unreadable path reason)
  | .file content => ofFile path content

/-- The document as a raw value. -/
def raw (d : SourceDocument) : Raw := .dict d.entries

end SourceDocument

/-- A part of a document: what it says, or the places of its values. -/
inductive DocumentPart
  | entries (entries : Entries)
  | places (sourceMap : SourceMap)

/-- A reader of documents, with the parts of documents that it keeps, those kept last in front. -/
structure DocumentReader where
  keeps : Bool
  kept : List (FilePath × DocumentPart) := []

namespace DocumentReader

/-- The name of the logger of readers. -/
def logger : String := "schema_lint.parsers.yaml_parser"

/-- What a reading comes to: the document or the error, the reader after it, and its log. -/
structure Outcome where
  document : Except ReadError SourceDocument
  reader : DocumentReader
  log : List LogRecord := []

/-- The documents that are kept, by their paths. -/
def documents (r : DocumentReader) : List (FilePath × Entries) :=
  r.kept.filterMap fun
    | (path, .entries es) => some (path, es)
    | (_, .places _) => none

/-- The places of values that are kept, by the paths of their documents. -/
def sourceMaps (r : DocumentReader) : List (FilePath × SourceMap) :=
  r.kept.filterMap fun
    | (_, .entries _) => none
    | (path, .places sourceMap) => some (path, sourceMap)

/-- Keeps a document and the places of its values, if the reader keeps any. -/
def keep (r : DocumentReader) (path : FilePath) (d : SourceDocument) : DocumentReader :=
  if r.keeps then
    { r with kept := (path, .places d.sourceMap) :: (path, .entries d.entries) :: r.kept }
  else r

/-- What a path gives of what is kept: nothing if its document is not kept, and an error if only the
places of the values are missing. -/
def kept? (r : DocumentReader) (path : FilePath) : Option (Except ReadError SourceDocument) :=
  if r.keeps then
    (r.documents.lookup path).map fun es =>
      match r.sourceMaps.lookup path with
      | some sourceMap => .ok ⟨es, sourceMap⟩
      | none => .error (.unplaced path)
  else none

/-- Reads the document at a path. -/
def read (r : DocumentReader) (tree : FileTree) (path : FilePath) : Outcome :=
  match tree.lookup path with
  | .error refusal => ⟨.error (.refused refusal), r, []⟩
  | .ok none => ⟨.error (.notFound path), r, []⟩
  | .ok (some .directory) | .ok (some .special) => ⟨.error (.notFile path), r, []⟩
  | .ok (some entry) =>
    match r.kept? path with
    | some document =>
      ⟨document, r, [.debug logger s!"Loading document from cache: {path.text}"]⟩
    | none =>
      let log := [LogRecord.debug logger s!"Loading document: {path.text}"]
      match SourceDocument.ofEntry path entry with
      | .ok d => ⟨.ok d, r.keep path d, log⟩
      | .error e => ⟨.error e, r, log⟩

/-- Forgets what is kept. -/
def forget (r : DocumentReader) : DocumentReader := { r with kept := [] }

end DocumentReader

end ApiLint
