import ApiLint.Files.Tree

/-!
# Searching for documents

Paths name documents or directories to search. A document that is named is known by its suffix in
any case; below a directory everything counts whose name ends in one of the suffixes as they stand.
A search ends where the system refuses something.
-/

namespace ApiLint

/-- Why a path leads to no document. -/
inductive SearchWarning
  | missing (path : FilePath)
  | notDocument (path : FilePath)
  | neither (path : FilePath)
  deriving DecidableEq, Repr

def SearchWarning.message : SearchWarning → String
  | .missing path => s!"Warning: Path does not exist: {path.text}"
  | .notDocument path => s!"Warning: File is not a YAML/JSON document: {path.text}"
  | .neither path => s!"Warning: Path is neither file nor directory: {path.text}"

/-- What a search comes to: warnings about paths, in their order, and the documents. -/
structure SearchOutcome where
  warnings : List SearchWarning := []
  documents : Except Refusal (List FilePath)

namespace FileTree

/-- The suffixes of documents. -/
def documentSuffixes : List String := [".yaml", ".yml", ".json"]

/-- Whether the suffix of a path is that of a document, in capitals or small letters. -/
def hasDocumentSuffix (path : FilePath) : Bool := documentSuffixes.contains (Text.lower path.suffix)

/-- Whether a text ends in another one. -/
def endsIn (text ending : String) : Bool := ending.toList.isSuffixOf text.toList

/-- Whether the last name of a path ends in a suffix of documents. -/
def hasDocumentEnding (path : FilePath) : Bool :=
  path.names.getLast?.any fun name => documentSuffixes.any (endsIn name)

/-- The documents at a path. -/
def documentsAt (t : FileTree) (path : FilePath) : SearchOutcome :=
  match t.lookup path with
  | .error refusal => ⟨[], .error refusal⟩
  | .ok none => ⟨[.missing path], .ok []⟩
  | .ok (some .directory) => ⟨[], (t.below path).map (·.filter hasDocumentEnding)⟩
  | .ok (some .special) => ⟨[.neither path], .ok []⟩
  | .ok (some (.file _)) | .ok (some (.unreadable _)) =>
    if hasDocumentSuffix path then ⟨[], .ok [path]⟩ else ⟨[.notDocument path], .ok []⟩

/-- The documents at paths, one path after the other up to the first refusal. -/
def documentsFrom (t : FileTree) : List FilePath → SearchOutcome
  | [] => ⟨[], .ok []⟩
  | path :: paths =>
    let here := t.documentsAt path
    match here.documents with
    | .error refusal => ⟨here.warnings, .error refusal⟩
    | .ok found =>
      let others := t.documentsFrom paths
      ⟨here.warnings ++ others.warnings, others.documents.map (found ++ ·)⟩

/-- Searches for the documents at paths, in order and each once. -/
def documents (t : FileTree) (paths : List FilePath) : SearchOutcome :=
  let found := t.documentsFrom paths
  { found with documents := found.documents.map FilePath.sorted }

end FileTree

end ApiLint
