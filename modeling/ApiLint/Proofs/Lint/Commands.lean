import Mathlib.Algebra.BigOperators.Group.List.Basic
import ApiLint.Console
import ApiLint.Lint.Document
import ApiLint.Lint.Report
import ApiLint.Proofs.Raw.Places
import ApiLint.Proofs.Rule.Total

/-!
# Workflow commands and the lines they stand on

A report as commands of a workflow announces each entry with one command, and whoever reads it takes
the lines that begin like commands for commands. The text of an entry stands in its command as it
is. So a line break in it, which may come from a name or a key of the document, ends the command,
and what stands behind the break begins a line of its own.
-/

namespace ApiLint

/-! ### Lines -/

/-- Whether a character is one of those that are printed in ASCII. -/
def isPrinted (c : Char) : Bool := 0x20 ≤ c.toNat && c.toNat ≤ 0x7e

/-- What ends lines: line feeds and maybe other characters, but none that are printed in ASCII. -/
structure LineBreaks where
  isBreak : Char → Bool
  isBreak_lineFeed : isBreak '\n' = true
  isBreak_printed : ∀ c, isPrinted c = true → isBreak c = false

namespace LineBreaks

variable {b : LineBreaks} {s r : String}

/-- The parts of a text between breaks. -/
def pieces (b : LineBreaks) (s : String) : List String :=
  (s.toList.splitOnP b.isBreak).map String.ofList

/-- The lines of a text; behind the last break begins another one only if there is something. -/
def linesOf (b : LineBreaks) (s : String) : List String :=
  if (b.pieces s).getLast? = some "" then (b.pieces s).dropLast else b.pieces s

/-- The number of breaks in a text. -/
def count (b : LineBreaks) (s : String) : Nat := s.toList.countP b.isBreak

@[simp] lemma count_append : b.count (s ++ r) = b.count s + b.count r := by
  rw [count, String.toList_append, List.countP_append]
  rfl

lemma count_eq_zero_iff : b.count s = 0 ↔ ∀ c ∈ s.toList, b.isBreak c = false := by
  simp [count, List.countP_eq_zero]

lemma count_printed (h : s.toList.all isPrinted = true) : b.count s = 0 :=
  count_eq_zero_iff.mpr fun c hc => b.isBreak_printed c (List.all_eq_true.mp h c hc)

lemma length_pieces (b : LineBreaks) (s : String) : (b.pieces s).length = b.count s + 1 := by
  rw [pieces, List.length_map, count]
  induction s.toList with
  | nil => simp
  | cons c cs ih =>
    rw [List.splitOnP_cons_eq_if_modifyHead, List.countP_cons]
    split
    · rw [List.length_cons, ih]
    · rw [List.length_modifyHead, ih, Nat.add_zero]

lemma pieces_of_count (h : b.count s = 0) : b.pieces s = [s] := by
  rw [pieces, List.splitOnP_eq_singleton (count_eq_zero_iff.mp h), List.map_singleton,
    String.ofList_toList]

/-- A text without breaks goes into the first part. -/
lemma pieces_append (h : b.count s = 0) :
    b.pieces (s ++ r) = (s ++ (b.pieces r).headD "") :: (b.pieces r).tail := by
  have hsplit : ∀ cs : List Char, (∀ c ∈ cs, b.isBreak c = false) →
      (cs ++ r.toList).splitOnP b.isBreak = (r.toList.splitOnP b.isBreak).modifyHead (cs ++ ·) := by
    intro cs hcs
    induction cs with
    | nil => exact (congrFun List.modifyHead_id _).symm
    | cons c cs ih =>
      obtain ⟨hc, hcs⟩ := List.forall_mem_cons.mp hcs
      rw [List.cons_append, List.splitOnP_cons_eq_if_modifyHead, hc, ih hcs,
        List.modifyHead_modifyHead]
      rfl
  rw [pieces, pieces, String.toList_append, hsplit _ (count_eq_zero_iff.mp h)]
  obtain ⟨first, rest, hr⟩ := List.exists_cons_of_ne_nil (List.splitOnP_ne_nil b.isBreak r.toList)
  rw [hr, List.modifyHead_cons, List.map_cons, List.map_cons, String.ofList_append,
    String.ofList_toList]
  rfl

/-- Texts that are written one to a line stand on the lines of all their parts. -/
lemma linesOf_join (b : LineBreaks) (texts : List String) :
    b.linesOf (String.join (texts.map (· ++ "\n"))) = texts.flatMap b.pieces := by
  have hpieces : b.pieces (String.join (texts.map (· ++ "\n"))) = texts.flatMap b.pieces ++ [""] := by
    induction texts with
    | nil => rfl
    | cons text texts ih =>
      rw [List.map_cons, String.join_cons, List.flatMap_cons, List.append_assoc, ← ih]
      rw [pieces, String.toList_append, String.toList_append, List.append_assoc]
      have hfeed : "\n".toList = ['\n'] := rfl
      rw [hfeed, List.singleton_append, List.splitOnP_append_cons _ _ b.isBreak_lineFeed,
        List.map_append]
      rfl
  rw [linesOf, hpieces, List.getLast?_concat, if_pos rfl, List.dropLast_concat]

/-! ### Breaks in what entries are made of -/

@[simp] lemma count_writtenInt (b : LineBreaks) (n : Int) : b.count (writtenInt n) = 0 := by
  have hdigits : (Binary64.digitsOf n.natAbs).all isPrinted = true := by
    refine List.all_eq_true.mpr fun c hc => ?_
    have hc := Nat.isDigit_of_mem_toDigits (by decide) (by decide) hc
    rw [Char.isDigit, Bool.and_eq_true, decide_eq_true_eq, decide_eq_true_eq, ge_iff_le,
      UInt32.le_iff_toNat_le, UInt32.le_iff_toNat_le] at hc
    rw [isPrinted, Bool.and_eq_true, decide_eq_true_eq, decide_eq_true_eq]
    exact ⟨le_trans (by decide) hc.1, hc.2.trans (by decide)⟩
  refine count_printed ?_
  rw [writtenInt, String.toList_ofList]
  split
  · rw [List.all_cons, hdigits]
    rfl
  · exact hdigits

/-- The escapes of a pointer add no breaks and take none away. -/
lemma countP_escapeChars (b : LineBreaks) (cs : List Char) :
    (Pointer.escapeChars cs).countP b.isBreak = cs.countP b.isBreak := by
  have htilde : b.isBreak '~' = false := b.isBreak_printed _ (by decide)
  have hslash : b.isBreak '/' = false := b.isBreak_printed _ (by decide)
  have hzero : b.isBreak '0' = false := b.isBreak_printed _ (by decide)
  have hone : b.isBreak '1' = false := b.isBreak_printed _ (by decide)
  fun_induction Pointer.escapeChars cs with
  | case1 => rfl
  | case2 cs ih => simp [ih, htilde, hzero]
  | case3 cs ih => simp [ih, htilde, hslash, hone]
  | case4 c cs hc hc' ih => simp [List.countP_cons, ih]

lemma count_placeOf (b : LineBreaks) (segments : List String) :
    b.count (Pointer.placeOf segments) = (segments.map b.count).sum := by
  rw [count, Pointer.toList_placeOf, List.countP_flatMap, List.map_map]
  refine congrArg List.sum (List.map_congr_left fun s _ => ?_)
  have hslash : b.isBreak '/' = false := b.isBreak_printed _ (by decide)
  rw [Function.comp_apply, Function.comp_apply, List.countP_cons, hslash, countP_escapeChars]
  rfl

lemma count_fileText (b : LineBreaks) (file : FilePath) (position : SourcePosition) :
    b.count (SourceLocation.fileText file position) = b.count file.text := by
  rw [SourceLocation.fileText]
  split <;> simp (disch := decide) [toString, count_printed]

lemma count_text (b : LineBreaks) (file : FilePath) (place : String) (position : SourcePosition) :
    b.count (SourceLocation.text ⟨some file, some place, position⟩)
      = b.count file.text + b.count place := by
  have htext : SourceLocation.text ⟨some file, some place, position⟩
      = " (" ++ " ".intercalate (SourceLocation.fileText file position
        :: (Option.filter (fun p => !p.isEmpty) (some place)).toList.map ("yaml_path=" ++ ·))
        ++ ")" := rfl
  rw [htext]
  by_cases hplace : place = ""
  · have hnone : Option.filter (fun p : String => !p.isEmpty) (some place) = none := by
      rw [hplace]
      rfl
    rw [hnone, Option.toList_none, List.map_nil, String.intercalate_singleton, hplace]
    simp (disch := decide) [count_fileText, count_printed]
  · have hsome : Option.filter (fun p => !p.isEmpty) (some place) = some place := by
      simpa using hplace
    rw [hsome, Option.toList_some, List.map_singleton, String.intercalate_cons_cons,
      String.intercalate_singleton]
    simp (disch := decide) [count_fileText, count_printed]

/-- An entry about a place has the breaks of what is said, of the path to the file, and of the
segments that lead to the place. -/
lemma count_message_entryAt (b : LineBreaks) (file : FilePath) (places : SourceMap)
    (message rule : String) (segments : List String) :
    b.count (Lint.entryAt file places message rule (Pointer.root.join segments)).message
      = b.count message + b.count file.text + (segments.map b.count).sum := by
  rw [Lint.entryAt, count_append, Pointer.place_root_join, ← count_placeOf, Nat.add_assoc]
  exact congrArg _ (count_text ..)

end LineBreaks

namespace Report

variable {b : LineBreaks}

/-! ### Announcements -/

/-- An entry with the file that it is about, as an error or as a warning. -/
structure Announcement where
  kind : String
  file : FilePath
  entry : LintEntry

namespace Announcement

/-- What the command of an announcement begins with: all but the message. -/
def opening (a : Announcement) : String :=
  s!"::{a.kind} file={a.file.text},line={writtenInt (a.entry.position.line.getD 1)}::"

def command (a : Announcement) : String := a.opening ++ a.entry.message

end Announcement

/-- What is announced of results: file by file, errors before warnings. -/
def announcements (rs : List LintResult) : List Announcement :=
  rs.flatMap fun r =>
    r.errors.map (Announcement.mk "error" r.file) ++ r.warnings.map (Announcement.mk "warning" r.file)

/-- What is printed of results as commands. -/
def printed (rs : List LintResult) : String :=
  Console.textOf (Console.lines .out (lines .githubActions rs)) .out

lemma lines_githubActions (rs : List LintResult) :
    lines .githubActions rs = (announcements rs).map Announcement.command := by
  rw [lines, announcements, List.map_flatMap]
  refine congrArg (List.flatMap · rs) (funext fun r => ?_)
  rw [commands, List.map_append, List.map_map, List.map_map]
  rfl

lemma printed_eq_join (rs : List LintResult) :
    printed rs = String.join (((announcements rs).map Announcement.command).map (· ++ "\n")) := by
  rw [printed, Console.textOf, lines_githubActions]
  refine congrArg String.join ?_
  induction (announcements rs).map Announcement.command with
  | nil => rfl
  | cons text texts ih =>
    rw [Console.lines, List.flatMap_cons, List.filter_append, List.map_append, List.map_cons]
    exact congrArg (List.cons (text ++ "\n")) ih

lemma length_announcements (rs : List LintResult) :
    (announcements rs).length = LintResult.errorCount rs + LintResult.warningCount rs := by
  rw [announcements, LintResult.errorCount, LintResult.warningCount]
  induction rs with
  | nil => rfl
  | cons r rs ih =>
    simp only [List.flatMap_cons, List.length_append, List.length_map] at ih ⊢
    omega

lemma kind_of_mem {rs : List LintResult} {a : Announcement} (h : a ∈ announcements rs) :
    a.kind = "error" ∨ a.kind = "warning" := by
  obtain ⟨r, -, ha⟩ := List.mem_flatMap.mp h
  rcases List.mem_append.mp ha with ha | ha
  · obtain ⟨e, -, rfl⟩ := List.mem_map.mp ha
    exact .inl rfl
  · obtain ⟨e, -, rfl⟩ := List.mem_map.mp ha
    exact .inr rfl

lemma count_opening {rs : List LintResult} {a : Announcement} (h : a ∈ announcements rs) :
    b.count a.opening = b.count a.file.text := by
  have hkind : b.count a.kind = 0 := by
    rcases kind_of_mem h with hkind | hkind
    · rw [hkind]
      exact LineBreaks.count_printed (by decide)
    · rw [hkind]
      exact LineBreaks.count_printed (by decide)
  simp (disch := decide) [Announcement.opening, toString, hkind, LineBreaks.count_printed]

lemma linesOf_printed (b : LineBreaks) (rs : List LintResult) :
    b.linesOf (printed rs) = (announcements rs).flatMap fun a => b.pieces a.command := by
  rw [printed_eq_join, LineBreaks.linesOf_join, List.flatMap_map]

lemma length_linesOf_printed (b : LineBreaks) (rs : List LintResult) :
    (b.linesOf (printed rs)).length = LintResult.errorCount rs + LintResult.warningCount rs
      + ((announcements rs).map fun a => b.count a.file.text + b.count a.entry.message).sum := by
  have hcommand : ∀ a ∈ announcements rs,
      (b.pieces a.command).length = 1 + (b.count a.file.text + b.count a.entry.message) := by
    intro a ha
    rw [LineBreaks.length_pieces, Announcement.command, LineBreaks.count_append, count_opening ha,
      Nat.add_comm]
  rw [linesOf_printed, List.length_flatMap, List.map_congr_left hcommand, List.sum_map_add,
    ← length_announcements]
  simp

/-- However lines are broken, the lines of printed commands are as many as the errors and warnings
and the breaks in what these say and in the paths to their files. They are the commands themselves,
in order, exactly if there are no such breaks. Without breaks in the paths, each entry stands on a
line that begins with the opening of its command, and behind it, on lines of their own and as it
stands, comes whatever its message has behind its first break. And a message that linting makes has
all breaks of what is said, of the path to the file, and of the names, keys and indices that lead to
the place. -/
theorem lines_of_commands (b : LineBreaks) (rs : List LintResult) :
    (b.linesOf (printed rs)).length = LintResult.errorCount rs + LintResult.warningCount rs
      + ((announcements rs).map fun a => b.count a.file.text + b.count a.entry.message).sum
    ∧ (b.linesOf (printed rs) = (announcements rs).map Announcement.command
      ↔ ∀ a ∈ announcements rs, b.count a.file.text = 0 ∧ b.count a.entry.message = 0)
    ∧ ((∀ a ∈ announcements rs, b.count a.file.text = 0) →
      b.linesOf (printed rs) = (announcements rs).flatMap fun a =>
        (a.opening ++ (b.pieces a.entry.message).headD "") :: (b.pieces a.entry.message).tail)
    ∧ ∀ file places message rule segments,
      b.count (Lint.entryAt file places message rule (Pointer.root.join segments)).message
        = b.count message + b.count file.text + (segments.map b.count).sum := by
  refine ⟨length_linesOf_printed b rs, ⟨fun h => ?_, fun h => ?_⟩, fun h => ?_,
    b.count_message_entryAt⟩
  · have hlength := length_linesOf_printed b rs
    rw [h, List.length_map, length_announcements, Nat.left_eq_add,
      List.sum_eq_zero_iff_forall_eq_nat] at hlength
    intro a ha
    exact Nat.add_eq_zero_iff.mp (hlength _ (List.mem_map_of_mem ha))
  · rw [linesOf_printed, List.map_eq_flatMap]
    refine List.flatMap_congr fun a ha => LineBreaks.pieces_of_count ?_
    rw [Announcement.command, LineBreaks.count_append, count_opening ha, (h a ha).1, (h a ha).2]
  · rw [linesOf_printed]
    refine List.flatMap_congr fun a ha => LineBreaks.pieces_append ?_
    rw [count_opening ha, h a ha]

/-- Lines that only line feeds end. -/
def lineFeeds : LineBreaks where
  isBreak c := c == '\n'
  isBreak_lineFeed := rfl
  isBreak_printed := by
    intro c hc
    rw [beq_eq_false_iff_ne]
    rintro rfl
    exact absurd hc (by decide)

/-- A document with a schema whose name has a line break and a command behind it, and whose default
is not of its type. -/
def forgingDocument : Raw :=
  .ofFields [("openapi", .str "3.0.0"), ("components", .ofFields [("schemas", .ofFields
    [("Pet\n::error file=b,line=2::forged", .ofFields [("type", .str "string"),
      ("default", .int 5)])])])]

/-- What linting that document brings to light. -/
def forgingResults : List LintResult :=
  [(Lint.lintDocument RuleSet.builtin [] forgingDocument ⟨.ofText "api.json", [], []⟩).result]

lemma forgingResults_eq : forgingResults =
    [⟨.ofText "api.json", [⟨"Data and type mismatch found. (source= api.json  "
        ++ "yaml_path=/components/schemas/Pet\n::error file=b,line=2::forged/default)",
      some "TypeMismatch", some "#/components/schemas/Pet\n::error file=b,line=2::forged/default",
      {}⟩], []⟩] := by
  decide +kernel

theorem lines_of_commands_forging :
    (∀ a ∈ announcements forgingResults, lineFeeds.count a.file.text = 0)
    ∧ ∃ a ∈ announcements forgingResults, lineFeeds.linesOf (printed forgingResults)
      = [a.opening ++ "Data and type mismatch found. "
          ++ "(source= api.json  yaml_path=/components/schemas/Pet",
        "::error file=b,line=2::forged/default)"] := by
  have hpaths : ∀ a ∈ announcements forgingResults, lineFeeds.count a.file.text = 0 := by
    rw [forgingResults_eq]
    decide +kernel
  have hlines := (lines_of_commands lineFeeds forgingResults).2.2.1 hpaths
  refine ⟨hpaths, ?_⟩
  rw [hlines, forgingResults_eq]
  decide +kernel

/-- The name of a schema can make a command of its own. -/
theorem name_forges_command :
    LintResult.errorCount forgingResults = 1 ∧ LintResult.warningCount forgingResults = 0
    ∧ lineFeeds.linesOf (printed forgingResults)
      = ["::error file=api.json,line=1::Data and type mismatch found. "
          ++ "(source= api.json  yaml_path=/components/schemas/Pet",
        "::error file=b,line=2::forged/default)"] := by
  rw [forgingResults_eq]
  decide +kernel

end Report

end ApiLint
