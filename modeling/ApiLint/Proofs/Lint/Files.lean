import ApiLint.Lint.Files
import ApiLint.Proofs.Document.Kept
import ApiLint.Proofs.Document.Reading

/-!
# Files are linted apart

A run over files lints them with one reader, whose documents are those that earlier runs have left.
In a tree that stays as it is, none of this shows in the results: a file has the result that it has
on its own, with a reader that keeps nothing yet. Nor does it matter to a file what became of the
others.
-/

namespace ApiLint

namespace Lint

/-! ### Results name their file -/

variable {rules : RuleSet} {places : SourceMap}

lemma file_walkComponent (g : Graph) (place : Nat) (name : String) (component : Component)
    (result : LintResult) :
    (walkComponent rules places g place name component result).result.file = result.file := by
  rw [walkComponent]
  dsimp only
  split <;> rfl

lemma file_walkComponents (d : LoadedDocument) (g : Graph) (components : List (String × Component))
    (place : Nat) (result : LintResult) :
    (walkComponents rules places d g place components result).result.file = result.file := by
  induction components generalizing place result with
  | nil => rfl
  | cons head rest ih =>
    obtain ⟨name, component⟩ := head
    cases halias : Fields.find? d.aliases name with
    | some target =>
      simp only [walkComponents, halias]
      exact ih _ _
    | none =>
      simp only [walkComponents, halias]
      split
      · exact file_walkComponent ..
      · exact (ih _ _).trans (file_walkComponent ..)

/-- Linting a document adds to the result of its file. -/
lemma file_lintDocument (document : Raw) (result : LintResult) :
    (lintDocument rules places document result).result.file = result.file := by
  rw [lintDocument]
  split
  · rfl
  · rfl
  · split
    · rw [lintLoaded]
      dsimp only
      split
      · rfl
      · exact file_walkComponents ..
    · split <;> rfl

/-! ### Runs -/

/-- The readers that lints of files of a tree leave, from readers that keep nothing: each lint with
rules of its own, and between two of them a reader may be told to keep documents from then on or
not, or to forget those it keeps. -/
inductive LeftByLints (tree : FileTree) : DocumentReader → Prop
  | fresh (keeps : Bool) : LeftByLints tree ⟨keeps, []⟩
  | lint {reader : DocumentReader} (h : LeftByLints tree reader) (rules : RuleSet)
      (path : FilePath) : LeftByLints tree (lintFile rules tree reader path).2.1
  | switch {reader : DocumentReader} (h : LeftByLints tree reader) (keeps : Bool) :
      LeftByLints tree { reader with keeps }
  | forget {reader : DocumentReader} (h : LeftByLints tree reader) : LeftByLints tree reader.forget

variable {tree : FileTree} {reader : DocumentReader} {path : FilePath}

lemma reader_lintFile :
    (lintFile rules tree reader path).2.1 = (reader.read tree path).reader := rfl

lemma LeftByLints.mirrors (h : LeftByLints tree reader) : reader.Mirrors tree := by
  induction h with
  | fresh keeps => exact DocumentReader.mirrors_fresh keeps tree
  | lint _ rules path ih =>
    rw [reader_lintFile]
    exact (ih.readsThrough path).mirrors
  | switch _ keeps ih => exact ih.switch keeps
  | forget => exact DocumentReader.mirrors_forget _ tree

/-- The result of the file at a path on its own. -/
def resultAt (rules : RuleSet) (tree : FileTree) (path : FilePath) : LintResult :=
  (lintReading rules path (tree.documentAt path)).1

/-- With a reader that mirrors the tree, each file has its own result. -/
lemma results_lintFiles (h : reader.Mirrors tree) (rules : RuleSet) (paths : List FilePath) :
    (lintFiles rules tree reader paths).results = paths.map (resultAt rules tree) := by
  induction paths generalizing reader with
  | nil => rfl
  | cons path paths ih =>
    have hread := h.readsThrough path
    have hresult : (lintFile rules tree reader path).1 = resultAt rules tree path := by
      rw [resultAt, ← hread.document]
      rfl
    rw [lintFiles, List.map_cons, ← hresult]
    exact congrArg _ (ih hread.mirrors)

/-- The linting of a file breaks off with a message, and with what its result holds by then: while
the file is read, or while its document is linted. -/
inductive BreaksOff (rules : RuleSet) (tree : FileTree) (path : FilePath) :
    LintResult → String → Prop
  | reading {e : ReadError} (h : tree.documentAt path = .error e) (hreported : e.isReported = false) :
      BreaksOff rules tree path { file := path } e.message
  | linting {d : SourceDocument} {outcome : Outcome} {fault : LintFault}
      (h : tree.documentAt path = .ok d)
      (houtcome : lintDocument rules d.sourceMap d.raw { file := path } = outcome)
      (hfault : outcome.fault = some fault) :
      BreaksOff rules tree path outcome.result fault.message

lemma BreaksOff.resultAt_eq {recorded : LintResult} {message : String}
    (h : BreaksOff rules tree path recorded message) :
    resultAt rules tree path
      = recorded.addError { message := "Unexpected error during linting: " ++ message } := by
  cases h with
  | reading h hreported => simp [resultAt, lintReading, h, hreported, unexpected]
  | linting h houtcome hfault => simp [resultAt, lintReading, h, houtcome, hfault, unexpected]

lemma BreaksOff.file_eq {recorded : LintResult} {message : String}
    (h : BreaksOff rules tree path recorded message) : recorded.file = path := by
  cases h with
  | reading => rfl
  | linting _ houtcome => rw [← houtcome, file_lintDocument]

lemma file_resultAt (rules : RuleSet) (tree : FileTree) (path : FilePath) :
    (resultAt rules tree path).file = path := by
  rw [resultAt]
  cases tree.documentAt path with
  | error e =>
    rw [lintReading]
    split <;> rfl
  | ok d =>
    rw [lintReading]
    dsimp only
    split
    · exact file_lintDocument ..
    · exact file_lintDocument ..

/-- With whatever documents earlier lints of a tree have left, a run has one result for each path,
in order, which is the one of a run over that path alone with a reader that keeps nothing yet. So a
run over two lists of paths is a run over one and then a run over the other. If the linting of a
file breaks off, its own result says so, behind what was recorded for it by then, and all others are
what they would be without it. And a reading by such a reader comes to what stands at the path; its
two tables hold the same paths after it, each with its part of the document there, and if it fails,
the tables are those before it. -/
theorem files_are_linted_apart (hreader : LeftByLints tree reader) (rules : RuleSet)
    (paths : List FilePath) :
    List.Forall₂ (fun path result => result.file = path
        ∧ ∀ keeps, (lintFiles rules tree ⟨keeps, []⟩ [path]).results = [result])
      paths (lintFiles rules tree reader paths).results
    ∧ (∀ before after reader' reader'', paths = before ++ after → LeftByLints tree reader' →
      LeftByLints tree reader'' →
      (lintFiles rules tree reader paths).results
        = (lintFiles rules tree reader' before).results ++ (lintFiles rules tree reader'' after).results)
    ∧ (∀ before path after recorded message, paths = before ++ path :: after →
      BreaksOff rules tree path recorded message →
      recorded.file = path ∧ (lintFiles rules tree reader paths).results
        = (lintFiles rules tree reader before).results
          ++ recorded.addError { message := "Unexpected error during linting: " ++ message }
            :: (lintFiles rules tree reader after).results)
    ∧ ∀ path, reader.ReadsThrough tree path := by
  have hresults : ∀ {reader}, LeftByLints tree reader → ∀ paths,
      (lintFiles rules tree reader paths).results = paths.map (resultAt rules tree) :=
    fun h paths => results_lintFiles h.mirrors rules paths
  refine ⟨?_, ?_, ?_, fun path => hreader.mirrors.readsThrough path⟩
  · rw [hresults hreader, List.forall₂_map_right_iff, List.forall₂_same]
    intro path _
    exact ⟨file_resultAt .., fun keeps => hresults (.fresh keeps) [path]⟩
  · rintro before after reader' reader'' rfl hreader' hreader''
    rw [hresults hreader, hresults hreader', hresults hreader'', List.map_append]
  · rintro before path after recorded message rfl hbreaks
    rw [hresults hreader, hresults hreader, hresults hreader, List.map_append, List.map_cons,
      hbreaks.resultAt_eq]
    exact ⟨hbreaks.file_eq, rfl⟩

end Lint

/-- A rule of a host that fails on the component of a name. -/
def Rule.failingOn (name : String) : Rule :=
  ⟨"Failing", .schema fun _ _ node =>
    if node.reference = some name then throw (.host "out of order") else pure ()⟩

/-- The matcher, and a rule that fails on the component `B`. -/
def RuleSet.fragile : RuleSet := ⟨[.typeMismatch, .failingOn "B"]⟩

/-- Two files: a document with a mismatch in `A`, and one that cannot be read. -/
def FileTree.shelf : FileTree where
  entries :=
    [(["a.yaml"], .file
      "swagger: '2.0'\ndefinitions: {A: {type: integer, default: x}, B: {}}".toUTF8.data.toList),
    (["b.yaml"], .unreadable "Permission denied")]

open Lint in
/-- The reader keeps the document of the first file from an earlier run. The mismatch in `A` stays
in the result of the file after the rule has failed on `B`, and the results around it are those of
the other files. -/
theorem Lint.files_are_linted_apart_shelf : ∃ reader recorded,
    LeftByLints .shelf reader ∧ (∃ d, reader.kept? ⟨"", ["a.yaml"]⟩ = some (.ok d))
    ∧ BreaksOff .fragile .shelf ⟨"", ["a.yaml"]⟩ recorded "out of order"
    ∧ recorded.errors.map LintEntry.pointer = [some "#/definitions/A/default"]
    ∧ (lintFiles .fragile .shelf reader
        [⟨"", ["b.yaml"]⟩, ⟨"", ["a.yaml"]⟩, ⟨"", ["c.yaml"]⟩]).results
      = (lintFiles .fragile .shelf reader [⟨"", ["b.yaml"]⟩]).results
        ++ recorded.addError { message := "Unexpected error during linting: out of order" }
          :: (lintFiles .fragile .shelf reader [⟨"", ["c.yaml"]⟩]).results := by
  have hchecks : (FileTree.documentAt .shelf ⟨"", ["a.yaml"]⟩).toOption.any (fun d =>
      let outcome := lintDocument .fragile d.sourceMap d.raw { file := ⟨"", ["a.yaml"]⟩ }
      outcome.fault.any (fun fault => fault.message == "out of order")
        && outcome.result.errors.map LintEntry.pointer == [some "#/definitions/A/default"])
      = true := by
    decide +kernel
  obtain ⟨d, hd, hchecks⟩ := exists_ok_of_any hchecks
  obtain ⟨hfault, hpointers⟩ := Bool.and_eq_true_iff.mp hchecks
  obtain ⟨fault, hfault, hmessage⟩ := (Option.any_eq_true ..).mp hfault
  have hbreaks : BreaksOff .fragile .shelf ⟨"", ["a.yaml"]⟩ _ fault.message :=
    .linting hd rfl hfault
  rw [beq_iff_eq.mp hmessage] at hbreaks
  have hread := (DocumentReader.mirrors_fresh true .shelf).readsThrough ⟨"", ["a.yaml"]⟩
  have hreader : LeftByLints .shelf (lintFile .fragile .shelf ⟨true, []⟩ ⟨"", ["a.yaml"]⟩).2.1 :=
    .lint (.fresh true) .fragile ⟨"", ["a.yaml"]⟩
  obtain ⟨-, -, hbroken, -⟩ := files_are_linted_apart hreader .fragile
    [⟨"", ["b.yaml"]⟩, ⟨"", ["a.yaml"]⟩, ⟨"", ["c.yaml"]⟩]
  refine ⟨_, _, hreader, ⟨d, ?_⟩, hbreaks, beq_iff_eq.mp hpointers,
    (hbroken [_] _ [_] _ _ rfl hbreaks).2⟩
  rw [reader_lintFile]
  exact hread.kept d hd rfl

end ApiLint
