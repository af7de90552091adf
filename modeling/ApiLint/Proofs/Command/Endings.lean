import Mathlib.Data.List.TakeWhile
import ApiLint.Command.Run
import ApiLint.Proofs.Rule.Names

/-!
# How runs end

A run with rules that can be selected ends with a status that tells whether there are documents
without errors, and a run with an unknown rule ends with the status of misuse. A known rule that is
named twice is not handled. Which rules are selected depends on the listed names alone, wherever
they are listed.
-/

namespace ApiLint

namespace Command

variable {c : Command} {config : Config} {tree : FileTree} {s : RuleSet} {text : String}

/-! ### Selected rules -/

/-- The text in which the rules of a run are listed: that of the command, or else that of the
environment. -/
def rulesText? (c : Command) (valueOf : String → Option String) : Option String :=
  c.rules <|> valueOf Config.ruleNamesVariable

/-- The names of the rules of a run, wherever they are listed. -/
def listed (c : Command) (valueOf : String → Option String) : List String :=
  (c.rulesText? valueOf).elim [] listedNames

lemma ruleNames_ofEnvironment (c : Command) (valueOf : String → Option String) :
    c.ruleNames (.ofEnvironment valueOf) = c.listed valueOf := by
  rw [ruleNames, listed, rulesText?]
  cases c.rules with
  | some text => rfl
  | none =>
    cases htext : valueOf Config.ruleNamesVariable with
    | none => simp [Config.ofEnvironment, selectedNames, htext]
    | some text =>
      cases hnames : listedNames text <;>
        simp [Config.ofEnvironment, selectedNames, htext, hnames, Option.filter]

lemma ruleSet_configure (c : Command) (config : Config) :
    c.ruleSet (c.configure config) = c.ruleSet config := by
  have hnames : (c.configure config).ruleNames = config.ruleNames := by
    rw [configure]
    split <;> rfl
  rw [ruleSet, ruleSet, ruleNames, ruleNames, hnames]

lemma ruleSet_of_selects (h : RuleSet.Selects (c.ruleNames config) s) :
    (c.ruleSet config).1 = .ok s := by
  rw [ruleSet]
  generalize c.ruleNames config = names at h
  cases h with
  | all => exact RuleSet.ofList_eq_ok_iff.mpr ⟨rfl, by decide⟩
  | @named rules nonempty known distinct =>
    have hofNames : (RuleSet.ofNames {} (rules.map Rule.name)).1 = .ok ⟨rules⟩ := by
      rw [RuleSet.ofNames, RuleSet.select_map_name known]
      exact RuleSet.ofList_eq_ok_iff.mpr ⟨rfl, distinct⟩
    cases rules with
    | nil => exact absurd rfl nonempty
    | cons rule rules => exact hofNames

lemma ruleSet_of_unknown (h : ∃ name ∈ c.ruleNames config, ¬Rule.IsKnown name) :
    ∃ name known, (c.ruleSet config).1 = .error (.unknown name known) := by
  rw [ruleSet]
  generalize c.ruleNames config = names at h
  obtain ⟨name, -, -, hselect⟩ := RuleSet.select_eq_unknown h
  cases names with
  | nil => simp at h
  | cons first names =>
    refine ⟨name, sortedNames RuleSet.known.names, ?_⟩
    change (RuleSet.ofNames {} (first :: names)).1 = _
    rw [RuleSet.ofNames, hselect]

lemma ruleSet_of_repeated (h : ∀ name ∈ c.ruleNames config, Rule.IsKnown name)
    (hrepeated : ¬(c.ruleNames config).Nodup) :
    ∃ name ∈ c.ruleNames config, (c.ruleSet config).1 = .error (.repeated name) := by
  rw [ruleSet]
  generalize c.ruleNames config = names at h hrepeated
  obtain ⟨rules, hrules, rfl⟩ := RuleSet.exists_map_name_eq h
  obtain ⟨rule, hrule, hset⟩ := RuleSet.ofList_eq_repeated hrepeated
  cases rules with
  | nil => exact absurd List.nodup_nil hrepeated
  | cons first rules =>
    refine ⟨rule.name, List.mem_map_of_mem hrule, ?_⟩
    change (RuleSet.ofNames {} (List.map Rule.name (first :: rules))).1 = _
    rw [RuleSet.ofNames, RuleSet.select_map_name hrules]
    exact hset

/-! ### What can be written -/

lemma check_eq_ok_iff {encoding : Encoding} {text : String} :
    encoding.check text = .ok () ↔ ∀ ch ∈ text.toList, encoding.has ch = true := by
  have hdrop : text.toList.drop (text.toList.takeWhile encoding.has).length
      = text.toList.dropWhile encoding.has := by
    have hsplit := List.takeWhile_append_dropWhile (p := encoding.has) (l := text.toList)
    nth_rewrite 2 [← hsplit]
    exact List.drop_left
  rw [Encoding.check, hdrop, ← List.dropWhile_eq_nil_iff]
  cases hrest : text.toList.dropWhile encoding.has with
  | nil => simp
  | cons ch rest =>
    have hch : encoding.has ch = false := by
      have hhead := List.head?_dropWhile_not encoding.has text.toList
      simpa [hrest] using hhead
    simp [hch]

lemma writeLines_eq_ok_iff {encoding : Encoding} {lines : List String} :
    (encoding.writeLines lines).2 = .ok ()
      ↔ ∀ line ∈ lines, ∀ ch ∈ line.toList, encoding.has ch = true := by
  induction lines with
  | nil => simp [Encoding.writeLines]
  | cons line lines ih =>
    rw [Encoding.writeLines, List.forall_mem_cons, ← ih, ← check_eq_ok_iff]
    cases encoding.check line <;> simp

/-! ### Endings -/

/-- The documents of a command. -/
def documents (c : Command) (tree : FileTree) : Except Refusal (List FilePath) :=
  (tree.documents c.searchPaths).documents

/-- The results of linting documents. -/
def results (config : Config) (tree : FileTree) (rules : RuleSet) (paths : List FilePath) :
    List LintResult :=
  (Lint.lintFiles rules tree ⟨config.keepsDocuments, []⟩ paths).results

/-- The status of a run with rules: whether there are documents, and all of them without errors. -/
def status (config : Config) (tree : FileTree) (rules : RuleSet) (paths : List FilePath) : Ending :=
  if paths = [] ∨ ∃ r ∈ results config tree rules paths, r.errors ≠ [] then failure else success

/-- The lines that are printed of documents. -/
def printed (c : Command) (config : Config) (tree : FileTree) (rules : RuleSet)
    (paths : List FilePath) : List String :=
  if paths = [] then [] else (c.reportOf (results config tree rules paths)).1

lemma errorCount_pos_iff {rs : List LintResult} :
    0 < LintResult.errorCount rs ↔ ∃ r ∈ rs, r.errors ≠ [] := by
  rw [LintResult.errorCount, List.length_pos_iff, ne_eq, List.flatMap_eq_nil_iff]
  push Not
  rfl

lemma reportOf_ending (c : Command) (rs : List LintResult) :
    (c.reportOf rs).2 = if ∃ r ∈ rs, r.errors ≠ [] then failure else success := by
  simp only [← errorCount_pos_iff, reportOf]
  split <;> rfl

lemma ending_report_of_ok {encoding : Encoding} {rs : List LintResult}
    (h : (encoding.writeLines (c.reportOf rs).1).2 = .ok ()) :
    (c.report encoding rs).ending = (c.reportOf rs).2 := by
  rw [report]
  rcases hwritten : encoding.writeLines (c.reportOf rs).1 with ⟨console, outcome⟩
  rw [hwritten] at h
  cases h
  simp [hwritten]

lemma ending_report_of_error {encoding : Encoding} {rs : List LintResult} {e : EncodingError}
    (h : (encoding.writeLines (c.reportOf rs).1).2 = .error e) :
    (c.report encoding rs).ending = .unhandled (.notEncodable e) := by
  rw [report]
  rcases hwritten : encoding.writeLines (c.reportOf rs).1 with ⟨console, outcome⟩
  rw [hwritten] at h
  cases h
  simp [hwritten]

section lint

variable {encoding : Encoding} {paths : List FilePath}

lemma ending_lint_of_refused {refusal : Refusal} (h : c.documents tree = .error refusal) :
    (c.lint config encoding tree s).ending = .unhandled (.refused refusal) := by
  rw [documents] at h
  simp [lint, h]

lemma ending_lint_of_ne_nil (h : c.documents tree = .ok paths) (hne : paths ≠ []) :
    (c.lint config encoding tree s).ending
      = (c.report encoding (results config tree s paths)).ending := by
  rw [documents] at h
  cases paths with
  | nil => exact absurd rfl hne
  | cons path paths => simp [lint, h, results]

lemma ending_lint_of_ok (h : c.documents tree = .ok paths)
    (hlines : ∀ line ∈ c.printed config tree s paths, ∀ ch ∈ line.toList, encoding.has ch = true) :
    (c.lint config encoding tree s).ending = status config tree s paths := by
  rw [status]
  cases paths with
  | nil =>
    rw [documents] at h
    simp [lint, h]
  | cons path paths =>
    have hne : path :: paths ≠ [] := List.cons_ne_nil _ _
    rw [printed, if_neg hne, ← writeLines_eq_ok_iff] at hlines
    rw [ending_lint_of_ne_nil h hne, ending_report_of_ok hlines, reportOf_ending]
    simp

lemma exists_ending_lint (h : c.documents tree = .ok paths)
    (hlines : ¬ ∀ line ∈ c.printed config tree s paths, ∀ ch ∈ line.toList,
      encoding.has ch = true) :
    ∃ e, (c.lint config encoding tree s).ending = .unhandled (.notEncodable e) := by
  have hne : paths ≠ [] := by
    rintro rfl
    simp [printed] at hlines
  rw [printed, if_neg hne, ← writeLines_eq_ok_iff] at hlines
  cases herror : (encoding.writeLines (c.reportOf (results config tree s paths)).1).2 with
  | ok _ => exact absurd herror hlines
  | error e => exact ⟨e, (ending_lint_of_ne_nil h hne).trans (ending_report_of_error herror)⟩

end lint

/-- The level of the log has no part in what is found. -/
lemma results_configure (c : Command) (config : Config) (tree : FileTree) (rules : RuleSet)
    (paths : List FilePath) :
    results (c.configure config) tree rules paths = results config tree rules paths := by
  have hkeeps : (c.configure config).keepsDocuments = config.keepsDocuments := by
    rw [configure]
    split <;> rfl
  rw [results, results, hkeeps]

lemma ending_run (c : Command) (config : Config) (encoding : Encoding) (tree : FileTree) :
    (c.run config encoding tree).ending = match (c.ruleSet config).1 with
      | .ok rules => (c.lint (c.configure config) encoding tree rules).ending
      | .error (.unknown ..) => misuse
      | .error e => .unhandled (.rules e) := by
  rw [run]
  dsimp only
  rw [ruleSet_configure]
  rcases c.ruleSet config with ⟨rules, log⟩
  cases rules with
  | ok rules => rfl
  | error e => cases e <;> rfl

/-! ### Blank lists -/

lemma stripBlank_eq_nil_iff {cs : List Char} :
    Text.stripBlank cs = [] ↔ ∀ ch ∈ cs, Text.isBlank ch = true := by
  rw [Text.stripBlank, List.reverse_eq_nil_iff, Text.dropBlank, List.dropWhile_eq_nil_iff]
  constructor
  · intro h ch hch
    rw [← List.takeWhile_append_dropWhile (p := Text.isBlank) (l := cs)] at hch
    rcases List.mem_append.mp hch with hfront | hrest
    · exact List.mem_takeWhile_imp hfront
    · exact h ch (List.mem_reverse.mpr hrest)
  · intro h ch hch
    exact h ch ((List.dropWhile_sublist _).mem (List.mem_reverse.mp hch))

lemma forall_mem_splitChars_iff {p : Char → Prop} {separator : Char} {cs : List Char} :
    (∀ part ∈ Text.splitChars separator cs, ∀ ch ∈ part, p ch)
      ↔ ∀ ch ∈ cs, ch = separator ∨ p ch := by
  induction cs with
  | nil => simp [Text.splitChars]
  | cons ch cs ih =>
    obtain ⟨first, parts, hparts⟩ :=
      List.exists_cons_of_ne_nil (Text.splitChars_ne_nil separator cs)
    rw [List.forall_mem_cons, ← ih, Text.splitChars]
    by_cases h : ch = separator
    · simp [h]
    · simp [h, hparts, and_assoc]

/-- No names are listed by blanks and commas only. -/
lemma listedNames_eq_nil_iff :
    listedNames text = [] ↔ ∀ ch ∈ text.toList, ch = ',' ∨ Text.isBlank ch = true := by
  rw [listedNames, List.filter_eq_nil_iff, ← forall_mem_splitChars_iff, Text.split, List.map_map,
    List.forall_mem_map]
  refine forall₂_congr fun part _ => ?_
  rw [← stripBlank_eq_nil_iff]
  simp [Text.trim]

/-! ### Arguments -/

/-- The arguments that ask for a format and for listed rules, if any, and name paths. -/
def written (format : ReportFormat) (rules : Option String) (paths : List String) : List String :=
  "--format" :: format.name :: rules.toList.map ("--rules=" ++ ·) ++ "--" :: paths

/-- A list of rules may be attached to the option, whatever characters it has. -/
lemma ofText_rules (rules : String) :
    CommandArgument.ofText ("--rules=" ++ rules) = .ok (.option .rules (some rules)) := by
  have hchars : ("--rules=" ++ rules).toList = "--rules=".toList ++ rules.toList :=
    String.toList_append
  have hcut : CommandArgument.cutAtEquals ("--rules=" ++ rules).toList
      = ("--rules".toList, some rules.toList) := by
    rw [hchars]
    rfl
  -- no name of an option has the sign in it that attaches the list
  have hwhole : CommandOption.ofName? ("--rules=" ++ rules) = none := by
    have hnames : ∀ p ∈ CommandOption.named, '=' ∉ p.1.toList := by decide
    refine List.lookup_eq_none_iff.mpr fun p hp => ?_
    rw [bne_iff_ne]
    intro heq
    refine hnames p hp ?_
    rw [← heq, hchars]
    exact List.mem_append_left _ (by decide)
  have hname : CommandOption.ofName? (String.ofList "--rules".toList) = some .rules := by
    decide +kernel
  have hdashes : CommandArgument.ofDashes ("--rules=" ++ rules)
      = .ok (.option .rules (some rules)) := by
    rw [CommandArgument.ofDashes, hcut]
    dsimp only
    rw [hwhole, hname]
    simp
  rw [CommandArgument.ofText, hchars]
  exact hdashes

lemma ofTexts_written (format : ReportFormat) (rules : Option String) (paths : List String) :
    CommandArgument.ofTexts (written format rules paths)
      = .ok (.option .format none :: .plain format.name
        :: rules.toList.map (fun text => .option .rules (some text))
        ++ .separator :: paths.map .plain) := by
  have hformat : CommandArgument.ofText "--format" = .ok (.option .format none) := rfl
  have hname : CommandArgument.ofText format.name = .ok (.plain format.name) := by
    cases format <;> rfl
  have hformat' : "--format" ≠ "--" := by decide
  have hname' : format.name ≠ "--" := by cases format <;> decide
  cases rules with
  | none =>
    simp [written, CommandArgument.ofTexts, hformat, hname, hformat', hname', pure, Except.pure,
      bind, Except.bind]
  | some text =>
    have htext : "--rules=" ++ text ≠ "--" := by
      intro heq
      have hlength := congrArg String.length heq
      rw [String.length_append, show "--rules=".length = 8 from rfl,
        show "--".length = 2 from rfl] at hlength
      omega
    simp [written, CommandArgument.ofTexts, hformat, hname, hformat', hname', htext, ofText_rules,
      pure, Except.pure, bind, Except.bind]

/-- Plain arguments at the paths are paths. -/
lemma readFrom_plain (r : Reading) (hr : r.paths = .at) (paths : List String) :
    readFrom r (paths.map .plain)
      = .ok { r with command.paths := r.command.paths ++ paths } := by
  induction paths generalizing r with
  | nil => simp [readFrom]
  | cons path paths ih =>
    rw [List.map_cons, readFrom, ih _ (by simp [Reading.addPath, hr])]
    simp [Reading.addPath, hr]

lemma ofArguments_written (format : ReportFormat) (rules : Option String) (paths : List String) :
    ofArguments (written format rules paths) = .ok { paths, format, rules } := by
  have hvalue : ReportFormat.ofName? format.name = some format := by cases format <;> rfl
  rw [ofArguments, ofTexts_written]
  cases rules with
  | none =>
    simp [readFrom, CommandOption.takesValue, Reading.setValue, Reading.endPaths,
      Reading.addSeparator, hvalue, readFrom_plain, Except.mapError, pure, Except.pure, bind,
      Except.bind]
  | some text =>
    simp [readFrom, CommandOption.takesValue, Reading.setValue, Reading.endPaths,
      Reading.addSeparator, hvalue, readFrom_plain, Except.mapError, pure, Except.pure, bind,
      Except.bind]

/-- The environment with a text that lists rules. -/
def withRules (valueOf : String → Option String) (text : String) (name : String) : Option String :=
  if name = Config.ruleNamesVariable then some text else valueOf name

lemma listed_withRules (c : Command) (valueOf : String → Option String) (text : String) :
    ({ c with rules := none } : Command).listed (withRules valueOf text) = listedNames text := by
  simp [listed, rulesText?, withRules]

lemma listed_some (c : Command) (valueOf : String → Option String) (text : String) :
    ({ c with rules := some text } : Command).listed valueOf = listedNames text := rfl

/-- A run whose names select rules ends with the status of what they find, if no path is refused and
there are characters for all that is printed; a refused path and a character that is lacking are not
handled. Names select rules if each is known and none stands twice. An unknown name ends the run as
a misuse, and a known name that stands twice is not handled. One text lists the same rules to the
command and in the environment, all rules if it is blank. Arguments can ask for any format, list and
paths. -/
theorem ending_run_of_listed (c : Command) (valueOf : String → Option String)
    (encoding : Encoding) (tree : FileTree) :
    (∀ rules, RuleSet.Selects (c.listed valueOf) rules →
      (∀ refusal, c.documents tree = .error refusal →
        (c.run (.ofEnvironment valueOf) encoding tree).ending = .unhandled (.refused refusal))
      ∧ ∀ paths, c.documents tree = .ok paths →
        ((∀ line ∈ c.printed (.ofEnvironment valueOf) tree rules paths, ∀ ch ∈ line.toList,
            encoding.has ch = true) →
          (c.run (.ofEnvironment valueOf) encoding tree).ending
            = status (.ofEnvironment valueOf) tree rules paths)
        ∧ ((¬ ∀ line ∈ c.printed (.ofEnvironment valueOf) tree rules paths, ∀ ch ∈ line.toList,
            encoding.has ch = true) →
          ∃ e, (c.run (.ofEnvironment valueOf) encoding tree).ending
            = .unhandled (.notEncodable e)))
    ∧ ((∃ rules, RuleSet.Selects (c.listed valueOf) rules)
      ↔ (∀ name ∈ c.listed valueOf, Rule.IsKnown name) ∧ (c.listed valueOf).Nodup)
    ∧ ((∃ name ∈ c.listed valueOf, ¬Rule.IsKnown name) →
      (c.run (.ofEnvironment valueOf) encoding tree).ending = .status 2)
    ∧ ((∀ name ∈ c.listed valueOf, Rule.IsKnown name) → ¬(c.listed valueOf).Nodup →
      ∃ name ∈ c.listed valueOf, (c.run (.ofEnvironment valueOf) encoding tree).ending
        = .unhandled (.rules (.repeated name)))
    ∧ (∀ text, ({ c with rules := some text } : Command).ruleSet (.ofEnvironment valueOf)
        = ({ c with rules := none } : Command).ruleSet (.ofEnvironment (withRules valueOf text))
      ∧ ((∀ ch ∈ text.toList, ch = ',' ∨ Text.isBlank ch = true) →
        (({ c with rules := some text } : Command).ruleSet (.ofEnvironment valueOf)).1
          = .ok ⟨Rule.builtin⟩))
    ∧ ∀ format rules paths,
      runArguments (written format rules paths) (.ofEnvironment valueOf) encoding tree
        = ({ paths, format, rules } : Command).run (.ofEnvironment valueOf) encoding tree := by
  have hnames := ruleNames_ofEnvironment c valueOf
  refine ⟨?_, RuleSet.exists_selects_iff, ?_, ?_, ?_, ?_⟩
  · intro rules hselects
    have hrun : (c.run (.ofEnvironment valueOf) encoding tree).ending
        = (c.lint (c.configure (.ofEnvironment valueOf)) encoding tree rules).ending := by
      rw [ending_run, ruleSet_of_selects (hnames ▸ hselects)]
    refine ⟨fun refusal h => hrun.trans (ending_lint_of_refused h), fun paths h => ?_⟩
    rw [hrun, status, printed, ← results_configure c, ← status, ← printed]
    exact ⟨ending_lint_of_ok h, exists_ending_lint h⟩
  · intro hunknown
    obtain ⟨name, known, hset⟩ := ruleSet_of_unknown (hnames ▸ hunknown)
    rw [ending_run, hset]
    rfl
  · intro hknown hrepeated
    obtain ⟨name, hname, hset⟩ := ruleSet_of_repeated (hnames ▸ hknown) (hnames ▸ hrepeated)
    exact ⟨name, hnames ▸ hname, by rw [ending_run, hset]⟩
  · intro text
    constructor
    · rw [ruleSet, ruleSet, ruleNames_ofEnvironment, ruleNames_ofEnvironment, listed_withRules,
        listed_some]
    · intro hblank
      apply ruleSet_of_selects
      rw [ruleNames_ofEnvironment, listed_some, listedNames_eq_nil_iff.mpr hblank]
      exact .all
  · intro format rules paths
    rw [runArguments, ofArguments_written]

theorem ending_run_of_listed_samples :
    (Command.run { rules := some " TypeMismatch ,," }
      (.ofEnvironment fun _ => none) .utf8 {}).ending = .status 1
    ∧ (Command.run { rules := some "TypeMismatch,Spelling" }
      (.ofEnvironment fun _ => none) .utf8 {}).ending = .status 2
    ∧ (Command.ruleSet { rules := some " , " } (.ofEnvironment fun _ => none)).1
      = .ok ⟨Rule.builtin⟩ := by
  obtain ⟨hselected, -⟩ :=
    ending_run_of_listed { rules := some " TypeMismatch ,," } (fun _ => none) .utf8 {}
  obtain ⟨-, -, hunknown, -, hlisted, -⟩ :=
    ending_run_of_listed { rules := some "TypeMismatch,Spelling" } (fun _ => none) .utf8 {}
  refine ⟨?_, ?_, ?_⟩
  · have hnames : Command.listed { rules := some " TypeMismatch ,," } (fun _ => none)
        = [Rule.typeMismatch].map Rule.name := by decide +kernel
    have hselects : RuleSet.Selects ([Rule.typeMismatch].map Rule.name) ⟨[Rule.typeMismatch]⟩ :=
      .named (by simp) (by simp [Rule.builtin]) (by decide)
    have hnone : Command.documents { rules := some " TypeMismatch ,," } {} = .ok [] := by
      decide +kernel
    obtain ⟨-, hfound⟩ := hselected _ (hnames ▸ hselects)
    exact (hfound [] hnone).1 (by simp [printed])
  · exact hunknown ⟨"Spelling", by decide +kernel, by decide⟩
  · exact (hlisted " , ").2 (listedNames_eq_nil_iff.mp (by decide +kernel))

/-- A known rule that is named twice ends the program without a status. -/
theorem ending_of_repeated_rule :
    (runArguments ["--rules", "TypeMismatch,TypeMismatch"] (.ofEnvironment fun _ => none) .utf8
      {}).ending = .unhandled (.rules (.repeated "TypeMismatch")) := by
  decide +kernel

end Command

end ApiLint
