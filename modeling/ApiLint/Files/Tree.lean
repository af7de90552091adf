import ApiLint.Files.Path

/-!
# File trees

Files and directories below a root. A path is looked up name by name, an absolute one from the root
and a relative one from the current directory; `..` leads to the directory above, and from the root
to the root. The system may refuse to look a path up, or to list a directory: a name may be too
long, or a directory on the way may not be open to everyone.
-/

namespace ApiLint

/-- What stands at a path. -/
inductive FileEntry
  | directory
  | file (content : List UInt8)
  /-- A file whose content cannot be read. -/
  | unreadable (reason : String)
  /-- Neither a file nor a directory. -/
  | special
  deriving DecidableEq, Repr, Inhabited

/-- What the system says when it refuses something, and whether that is for want of permission. -/
structure Refusal where
  message : String
  isDenial : Bool := false
  deriving DecidableEq, Repr, Inhabited

/-- The entries below a root, each under its names from there, and the names of the current
directory. Some paths are refused when they are looked up, and some directories when they are listed
under a path. That nothing stands at a path is no refusal. -/
structure FileTree where
  entries : List (List String × FileEntry) := []
  current : List String := []
  refused : List (FilePath × Refusal) := []
  unlisted : List (FilePath × Refusal) := []
  deriving Repr, Inhabited

namespace FileTree

/-- The entry under names. Without names that is the root. -/
def entryAt? (t : FileTree) (names : List String) : Option FileEntry :=
  if names.isEmpty then some .directory else t.entries.lookup names

def isDirectoryAt (t : FileTree) (names : List String) : Bool := t.entryAt? names == some .directory

/-- Puts an entry under names, in place of the one that is there. -/
def put (t : FileTree) (names : List String) (entry : FileEntry) : FileTree :=
  if t.entries.any (·.1 == names) then
    { t with entries := t.entries.map fun e => if e.1 == names then (names, entry) else e }
  else { t with entries := t.entries ++ [(names, entry)] }

/-- Makes the directories that lead to names and are missing. -/
def withParents (t : FileTree) (names : List String) : FileTree :=
  (List.range names.length).foldl (fun t n =>
    let parent := names.take n
    if (t.entryAt? parent).isSome then t else t.put parent .directory) t

/-- The names of the directory that a path starts from. -/
def start (t : FileTree) (path : FilePath) : List String := if path.root.isEmpty then t.current else []

/-- Adds an entry at a path without `..`, with the directories above it. -/
def add (t : FileTree) (path : FilePath) (entry : FileEntry) : FileTree :=
  let names := t.start path ++ path.names
  (t.withParents names).put names entry

/-- Removes the entry at a path without `..`. -/
def remove (t : FileTree) (path : FilePath) : FileTree :=
  { t with entries := t.entries.filter fun e => e.1 != t.start path ++ path.names }

/-- Goes from a directory to what a name in it leads to. -/
def step (t : FileTree) (here : List String) (name : String) : Option (List String) :=
  if !t.isDirectoryAt here then none
  else if name = ".." then some here.dropLast
  else (t.entryAt? (here ++ [name])).map fun _ => here ++ [name]

/-- The names under which a path leads to an entry. -/
def resolve (t : FileTree) (path : FilePath) : Option (List String) :=
  path.names.foldlM t.step (t.start path)

/-- The entry at a path, unless the system refuses to look it up. -/
def lookup (t : FileTree) (path : FilePath) : Except Refusal (Option FileEntry) :=
  match t.refused.lookup path with
  | some refusal => .error refusal
  | none => .ok ((t.resolve path).bind t.entryAt?)

/-! ### What is below a directory -/

/-- The entries below the directory at a path, under their names from there. -/
def inside (t : FileTree) (path : FilePath) : List (List String × FileEntry) :=
  match t.resolve path with
  | none => []
  | some here =>
    t.entries.filterMap fun (names, entry) =>
      if here.isPrefixOf names && here.length < names.length then
        some (names.drop here.length, entry)
      else none

/-- Whether the listing of the directory at a path comes to what stands under names below it: every
directory on the way is listed. -/
def isListed (t : FileTree) (path : FilePath) (names : List String) : Bool :=
  (List.range names.length).all fun n => (t.unlisted.lookup (path.under (names.take n))).isNone

/-- The entries that the listing of the directory at a path comes to. -/
def listed (t : FileTree) (path : FilePath) : List (List String × FileEntry) :=
  (t.inside path).filter fun e => t.isListed path e.1

/-- The directories that the listing of the directory at a path comes to, itself in front. -/
def listedDirectories (t : FileTree) (path : FilePath) : List (List String) :=
  [] :: ((t.listed path).filter fun e => e.2 == .directory).map (·.1)

/-- The paths of all entries that the listing of the directory at a path comes to. A directory that
may not be listed is passed over, and any other refusal ends the listing. -/
def below (t : FileTree) (path : FilePath) : Except Refusal (List FilePath) :=
  let refusals := (t.listedDirectories path).filterMap fun names =>
    (t.unlisted.lookup (path.under names)).filter (!·.isDenial)
  match refusals with
  | refusal :: _ => .error refusal
  | [] => .ok ((t.listed path).map fun e => path.under e.1)

end FileTree

end ApiLint
