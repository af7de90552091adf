import ApiLint.Command.Run

/-!
# The program

Reads the environment and the files that a command may need, runs the command, and writes what comes
of it. Everything that is decided is decided elsewhere.
-/

namespace ApiLint.Program

/-- The configuration that the environment gives. -/
def configuration : IO Config := do
  let values ← Config.variableNames.filterMapM fun name => do
    return (← IO.getEnv name).map fun value => (name, value)
  return Config.ofEnvironment fun name => values.lookup name

/-- The code of the error that links lead in a circle. -/
def loopCode : UInt32 := 40

/-- Whether an error says no more than that nothing stands at a path. -/
def isAbsence : IO.Error → Bool
  | .noFileOrDirectory .. | .inappropriateType .. => true
  | .invalidArgument _ code _ => code == loopCode
  | _ => false

/-- What the system says when it refuses something. -/
def refusalOf (e : IO.Error) : Refusal where
  message := e.toString
  isDenial := match e with
    | .permissionDenied .. => true
    | _ => false

/-- The content of a file on disk, which is read only if the file may be a document. -/
def contentOnDisk (path : FilePath) : IO FileEntry := do
  let place := (← IO.currentDir) / path.text
  if FileTree.hasDocumentSuffix path || FileTree.hasDocumentEnding path then
    try
      return .file (← IO.FS.readBinFile place).toList
    catch e =>
      return .unreadable e.toString
  else return .file []

/-- What stands at a path on disk. -/
def entryOnDisk (path : FilePath) : IO (Except Refusal (Option FileEntry)) := do
  let place := (← IO.currentDir) / path.text
  try
    match (← place.metadata).type with
    | .dir => return .ok (some .directory)
    | .file => return .ok (some (← contentOnDisk path))
    | _ => return .ok (some .special)
  catch e =>
    if isAbsence e then return .ok none else return .error (refusalOf e)

/-- Adds what the system says to a path; the names are those from the root. Behind a refusal
something may stand that is found where its directory is listed. -/
def withEntry (tree : FileTree) (path : FilePath) (names : List String) : IO FileTree := do
  match ← entryOnDisk path with
  | .ok (some found) => return tree.add ⟨"/", names⟩ found
  | .ok none => return tree
  | .error refusal =>
    return { tree.add ⟨"/", names⟩ .special with refused := (path, refusal) :: tree.refused }

/-- Adds what is below a directory on disk to a tree. Links to directories are not followed. -/
partial def withBelow (tree : FileTree) (path : FilePath) (names : List String) : IO FileTree := do
  let place := (← IO.currentDir) / path.text
  let entries ← try
      pure (Except.ok (← place.readDir))
    catch e =>
      pure (.error (refusalOf e))
  match entries with
  | .error refusal => return { tree with unlisted := (path, refusal) :: tree.unlisted }
  | .ok entries =>
    let mut tree := tree
    for entry in entries do
      let below := path.child entry.fileName
      let names := names ++ [entry.fileName]
      tree ← withEntry tree below names
      if tree.isDirectoryAt names && (← entry.path.symlinkMetadata).type == .dir then
        tree ← withBelow tree below names
    return tree

/-- Adds the directories that a path goes through and what it leads to. -/
def withPath (tree : FileTree) (path : FilePath) : IO FileTree := do
  let mut tree := tree
  let mut names := tree.start path
  for name in path.names do
    names := if name == ".." then names.dropLast else names ++ [name]
    match ← entryOnDisk ⟨"/", names⟩ with
    | .ok (some found) => tree := tree.add ⟨"/", names⟩ found
    | .ok none | .error _ => break
  match ← entryOnDisk path with
  | .ok (some .directory) => withBelow tree path names
  | .ok _ => return tree
  | .error refusal => return { tree with refused := (path, refusal) :: tree.refused }

/-- The part of the disk that a command may need. -/
def treeFor (c : Command) : IO FileTree := do
  let here := FilePath.ofText (← IO.currentDir).toString
  let tree : FileTree := { current := here.names }
  c.searchPaths.foldlM withPath (tree.add here .directory)

/-- Writes to the standard streams; what UTF-8 lacks is escaped in complaints. -/
def write (console : Console) : IO Unit :=
  console.forM fun t =>
    match t.stream with
    | .out => IO.print t.text
    | .err => IO.eprint <| String.ofList <| t.text.toList.flatMap fun c =>
      if Encoding.utf8.has c then [c] else Text.escapedPoint (Text.codePointOf c)

/-- Writes what a run has come to and gives its status. -/
def finish (outcome : Command.Outcome) : IO UInt32 := do
  write outcome.console
  match outcome.ending with
  | .status code => return code.toUInt32
  | .unhandled error =>
    write (Console.line .err error.message)
    return 1

end ApiLint.Program

/-- Runs the linter with the arguments of the command line. -/
def main (arguments : List String) : IO UInt32 := do
  let config ← ApiLint.Program.configuration
  match ApiLint.Command.ofArguments arguments with
  | .error stop => ApiLint.Program.finish (ApiLint.Command.stop stop)
  | .ok command =>
    let tree ← ApiLint.Program.treeFor command
    ApiLint.Program.finish (command.run config .utf8 tree)
