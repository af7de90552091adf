import ApiLint.Proofs.Document.Envelope
import ApiLint.Proofs.Document.Tiers
import ApiLint.Proofs.Lint.Walks
import ApiLint.Proofs.Rule.Total
import ApiLint.Proofs.Walk.Broken

/-!
# Loaded documents can be walked

The graph of a loaded document is sound, whatever the keys and the order of the components in the
document. So a walk of it with rules of the library ends with findings, from whatever component,
under whatever pointer, and whether or not it stops at references. There is one exception: a walk
that comes back to the component of the empty name shows its type, and this may be a number that is
too long to be written. The envelope admits no such type, and so a linter with such rules never
reports that a graph cannot be walked.
-/

namespace ApiLint

open Walk

namespace Graph

variable {g : Graph} {walker : Walker}

/-- Rules of the library walk a sound graph without a fault and without a visit deeper than the
number of keys plus one, if the nodes that the walk comes back to can be named. -/
lemma IsSound.exists_findings (hg : g.IsSound)
    (hrules : ∀ rule ∈ walker.rules.rules, rule ∈ Rule.builtin) {place : Nat}
    (hplace : place < g.nodes.size) (hnamed : g.NamesRepeats [] (.node place)) :
    ∃ findings, (walker.walk g (.node place)).findings = .ok findings
      ∧ (∀ f ∈ findings, f.rule ∈ walker.rules.names)
      ∧ ∀ deeper : Child → Visit Unit,
        (visitOr walker g deeper (g.keys.card + 1) (.node place)).Reports walker.base []
          findings := by
  have hroot : ∃ result, g.resolve (.node place) = .ok result :=
    ⟨_, resolve_node (Array.getElem?_eq_getElem hplace)⟩
  have hreports : ∀ rule ∈ walker.rules.rules, rule.Reports g (Examination.ofBuiltin g rule) :=
    fun rule hrule => hg.builtin_reports rule (hrules rule hrule)
  obtain ⟨hwalk, hvisits⟩ := walk_reports_findingsAlong hg.isWellFormed hreports hroot hnamed
  refine ⟨_, hwalk, ?_, hvisits⟩
  intro f hf
  obtain ⟨e, he, hf⟩ := List.mem_flatMap.mp hf
  exact Examination.rule_of_mem_findingsAt hg hrules (getElem?_of_mem_listing he) hf

end Graph

namespace LoadedDocument

variable {document : Raw} {d : LoadedDocument} {rules : RuleSet}

/-- If the envelope of a document has no issues, the types of its components are texts. -/
lemma isWritable_type_of_envelope (henvelope : Envelope.issues document = .ok [])
    (h : ofRaw document = .ok d) : ∀ c ∈ d.components, c.2.node.type.isWritable = true := by
  obtain ⟨cs, hcs, -, hload⟩ := ofRaw_eq_ok_iff.mp h
  refine Components.forall_mem_load (P := fun _ node => node.type.isWritable = true)
    (fun _ => rfl) ?_ (by simp) hload
  intro e he target shape _ node htarget _ hnode
  obtain ⟨_, other, hother, hshape⟩ := Components.exists_entry_of_follow ⟨e, he, rfl⟩ htarget
  have hadmitted := Envelope.isAdmitted_of_mem_components henvelope hcs hother
  rw [hshape] at hadmitted
  obtain ⟨read, hhead, -, hread⟩ := Components.exists_read_of_fill hnode
  obtain ⟨_, _, _, rfl, -⟩ := Components.withLiterals_eq_ok hread
  change read.type.isWritable = true
  rw [hhead.type]
  exact Envelope.isWritable_type hadmitted

/-- No walk of a linter with rules of the library ends in a fault, if the envelope of the document
has no issues. -/
lemma exists_findings_of_mem_walks (henvelope : Envelope.issues document = .ok [])
    (h : ofRaw document = .ok d) (hrules : ∀ rule ∈ rules.rules, rule ∈ Rule.builtin)
    {w : Walk.Outcome} (hw : w ∈ d.walks rules) :
    ∃ findings, w.findings = .ok findings ∧ ∀ f ∈ findings, f.rule ∈ rules.names := by
  obtain ⟨hsize, hsound⟩ := isSound_graph h
  obtain ⟨⟨⟨name, component⟩, place⟩, hmem, hw⟩ := List.mem_filterMap.mp hw
  dsimp only at hw
  split at hw
  · cases hw
  · cases hw
    have hplace : place < d.components.length := by
      simpa using (List.mem_zipIdx hmem).2.1
    let walker : Walker := ⟨rules, component.pointer, true⟩
    have hbuiltin : ∀ rule ∈ walker.rules.rules, rule ∈ Rule.builtin := hrules
    have hnamed : d.graph.NamesRepeats [] (.node place) := by
      refine namesRepeats_graph h (fun node hnode hempty => ?_) hplace
      obtain ⟨c, hc, htype⟩ := exists_component_of_reference h hnode hempty
      exact htype ▸ isWritable_type_of_envelope henvelope h c hc
    obtain ⟨findings, hfindings, hnames, _⟩ :=
      hsound.exists_findings hbuiltin (hplace.trans_le hsize) hnamed
    exact ⟨findings, hfindings, hnames⟩

end LoadedDocument

namespace Lint

variable {rules : RuleSet}

/-- With rules of the library, what a linter adds to a result is about the structure of a document
or reported by a rule. -/
lemma exists_entries (hrules : ∀ rule ∈ rules.rules, rule ∈ Rule.builtin) (document : Raw)
    (places : SourceMap) (result : LintResult) :
    (∀ fault, (lintDocument rules places document result).fault ≠ some (.walk fault))
      ∧ ∃ entries,
        (lintDocument rules places document result).result.errors = result.errors ++ entries
          ∧ ∀ entry ∈ entries, entry.rule = some structureRule ∨ ∃ name ∈ rules.names,
            entry.rule = some name := by
  cases henvelope : Envelope.issues document with
  | error e =>
    rw [lintDocument_of_unshown henvelope]
    exact ⟨by simp, [], by simp, by simp⟩
  | ok is =>
    by_cases hne : is = []
    · subst hne
      cases hload : LoadedDocument.ofRaw document with
      | error e =>
        rw [lintDocument_of_error henvelope hload]
        split
        · refine ⟨by simp, [{ message := e.message, rule := some structureRule }], rfl, ?_⟩
          simp
        · exact ⟨by simp, [], by simp, by simp⟩
      | ok d =>
        have hwalks : ∀ w ∈ d.walks rules, ∃ findings, w.findings = .ok findings
            ∧ ∀ f ∈ findings, f.rule ∈ rules.names :=
          fun w hw => LoadedDocument.exists_findings_of_mem_walks henvelope hload hrules hw
        have hok : ∀ w ∈ d.walks rules, ∃ findings, w.findings = .ok findings :=
          fun w hw => (hwalks w hw).imp fun _ h => h.1
        rw [lintDocument_of_ok henvelope hload]
        obtain ⟨hfault, herrors⟩ := lintLoaded_errors hok result
        refine ⟨by simp [hfault], _, herrors, ?_⟩
        intro entry hentry
        obtain ⟨f, hf, rfl⟩ := List.mem_map.mp hentry
        obtain ⟨w, hw, hf⟩ := List.mem_flatMap.mp hf
        obtain ⟨findings, hfindings, hnames⟩ := hwalks w hw
        rw [Outcome.reported, hfindings] at hf
        exact .inr ⟨f.rule, hnames f hf, rfl⟩
    · rw [lintDocument_of_issues henvelope hne]
      refine ⟨by simp, issueEntries result.file places is, rfl, ?_⟩
      intro entry hentry
      obtain ⟨issue, _, rfl⟩ := List.mem_map.mp hentry
      exact .inl rfl

/-- A document whose schemas can be built, in whatever way its keys are written, gives a graph that
can be walked. It has a node for every component; every child of a node is a node, and every literal
a value at all depths. Any rules of the library walk it from any component to its end, under any
pointer, and whether or not they stop at references, unless there is a component of the empty name
whose type is too long to be written; and nothing but this can break a walk off. And whatever the
document, a linter with such rules neither ends in a fault of a walk nor adds an error about a graph
that cannot be walked. -/
theorem loaded_documents_are_walkable (document : Raw) :
    (∀ d, LoadedDocument.ofRaw document = .ok d →
      d.components.length ≤ d.graph.nodes.size
      ∧ (∀ node ∈ d.graph.nodes,
          (∀ e ∈ node.children, ∃ found, d.graph.resolve e.2 = .ok found)
          ∧ ∀ l ∈ node.literals, l.2.IsValue)
      ∧ ∀ walker : Walker, (∀ rule ∈ walker.rules.rules, rule ∈ Rule.builtin) →
          ∀ place < d.components.length,
            ((∀ node ∈ d.graph.nodes, node.reference = some "" → node.type.isWritable = true) →
              ∃ findings, (walker.walk d.graph (.node place)).findings = .ok findings
                ∧ ∀ deeper : Child → Visit Unit,
                  (visitOr walker d.graph deeper (d.graph.keys.card + 1) (.node place)).Reports
                    walker.base [] findings)
            ∧ ((∃ findings, (walker.walk d.graph (.node place)).findings = .ok findings)
              ∨ (walker.walk d.graph (.node place)).findings = .error (.number .tooLongToWrite)))
    ∧ ∀ rules : RuleSet, (∀ rule ∈ rules.rules, rule ∈ Rule.builtin) →
        ∀ (places : SourceMap) (result : LintResult),
          (∀ fault, (lintDocument rules places document result).fault ≠ some (.walk fault))
          ∧ ∃ entries,
            (lintDocument rules places document result).result.errors = result.errors ++ entries
            ∧ ∀ entry ∈ entries, entry.rule ≠ some graphRule := by
  refine ⟨?_, ?_⟩
  · intro d hload
    obtain ⟨hsize, hsound⟩ := LoadedDocument.isSound_graph hload
    refine ⟨hsize, fun node hnode => ⟨(hsound node hnode).child, (hsound node hnode).literal⟩, ?_⟩
    intro walker hrules place hplace
    refine ⟨fun hempty => ?_, ?_⟩
    · have hnamed := LoadedDocument.namesRepeats_graph hload hempty hplace
      obtain ⟨findings, hfindings, _, hvisits⟩ :=
        hsound.exists_findings hrules (hplace.trans_le hsize) hnamed
      exact ⟨findings, hfindings, hvisits⟩
    · have hreports : ∀ rule ∈ walker.rules.rules,
          rule.Reports d.graph (Examination.ofBuiltin d.graph rule) :=
        fun rule hrule => hsound.builtin_reports rule (hrules rule hrule)
      exact findings_walk_cases hsound.isWellFormed hreports
        ⟨_, Graph.resolve_node (Array.getElem?_eq_getElem (hplace.trans_le hsize))⟩
  · intro rules hrules places result
    obtain ⟨hfault, entries, herrors, hentries⟩ := exists_entries hrules document places result
    refine ⟨hfault, entries, herrors, ?_⟩
    intro entry hentry
    -- The name under which a broken graph is reported is that of no rule.
    have hbuiltin : ∀ name ∈ rules.names, name ≠ graphRule := by
      intro name hname
      obtain ⟨rule, hrule, rfl⟩ := List.mem_map.mp hname
      have hmem := hrules rule hrule
      simp only [Rule.builtin, List.mem_cons, List.not_mem_nil, or_false] at hmem
      rcases hmem with rfl | rfl | rfl <;> decide
    rcases hentries entry hentry with h | ⟨name, hname, h⟩
    · rw [h]
      decide
    · rw [h]
      simpa using hbuiltin name hname

/-- A document with keys that are no texts, two components of one name, and references to
components that are declared later. -/
def looseDocument : Raw :=
  .ofFields [("swagger", .str "2.0"), ("definitions", .dict [
    (.int 200, .ofFields [
      ("type", .str "object"),
      ("properties", .dict [(.bool true, .ofFields [("$ref", .str "#/definitions/Later")])]),
      ("default", .dict [(.int 1, .list [.null, .dict [(.null, .str "x")]])])]),
    (.str "200", .ofFields [("items", .ofFields [("$ref", .str "#/definitions/Alias")])]),
    (.str "Later", .ofFields [
      ("discriminator", .str "kind"),
      ("oneOf", .list [.ofFields [("$ref", .str "#/definitions/Later")]])]),
    (.str "Alias", .ofFields [("$ref", .str "#/definitions/200")])])]

theorem loaded_documents_are_walkable_loose :
    ∃ d, LoadedDocument.ofRaw looseDocument = .ok d
      ∧ d.components.length ≤ d.graph.nodes.size
      ∧ (∀ node ∈ d.graph.nodes,
          (∀ e ∈ node.children, ∃ found, d.graph.resolve e.2 = .ok found)
          ∧ ∀ l ∈ node.literals, l.2.IsValue)
      ∧ (∀ place < d.components.length, ∃ findings,
          ((Walker.mk ⟨Rule.builtin⟩ "#/x" false).walk d.graph (.node place)).findings
            = .ok findings)
      ∧ ∀ (places : SourceMap) (result : LintResult), ∃ entries,
        (lintDocument ⟨Rule.builtin⟩ places looseDocument result).result.errors
            = result.errors ++ entries
          ∧ ∀ entry ∈ entries, entry.rule ≠ some graphRule := by
  obtain ⟨d, hload⟩ : ∃ d, LoadedDocument.ofRaw looseDocument = .ok d :=
    exists_ok_of_isSome (by decide +kernel)
  have hnames : (LoadedDocument.ofRaw looseDocument).toOption.all
      (fun d => d.graph.nodes.all fun node => node.reference != some "") = true := by decide +kernel
  obtain ⟨hdocument, hlint⟩ := loaded_documents_are_walkable looseDocument
  obtain ⟨hsize, hsound, hwalks⟩ := hdocument d hload
  refine ⟨d, hload, hsize, hsound, ?_, ?_⟩
  · intro place hplace
    have hempty : ∀ node ∈ d.graph.nodes, node.reference = some "" →
        node.type.isWritable = true := by
      simp only [hload, Except.toOption, Option.all_some, Array.all_eq_true_iff_forall_mem,
        bne_iff_ne] at hnames
      exact fun node hnode hreference => absurd hreference (hnames node hnode)
    obtain ⟨findings, hfindings, _⟩ :=
      (hwalks ⟨⟨Rule.builtin⟩, "#/x", false⟩ (fun _ h => h) place hplace).1 hempty
    exact ⟨findings, hfindings⟩
  · intro places result
    exact (hlint ⟨Rule.builtin⟩ (fun _ h => h) places result).2

/-- A component of the empty name that holds itself, and whose type is an integer of too many
digits. -/
def unnameableDocument : Raw :=
  .ofFields [("openapi", .str "3.0.0"), ("components", .ofFields [("schemas", .ofFields [
    ("", .ofFields [("type", .int (10 ^ 4300)),
      ("items", .ofFields [("$ref", .str "#/components/schemas/")])])])])]

/-- The walk comes back to the component, which has no name, and cannot show its type instead. -/
theorem not_every_loaded_document_is_walkable :
    ¬∀ (document : Raw) (d : LoadedDocument), LoadedDocument.ofRaw document = .ok d →
      ∀ walker : Walker, (∀ rule ∈ walker.rules.rules, rule ∈ Rule.builtin) →
        ∀ place < d.components.length,
          ∃ findings, (walker.walk d.graph (.node place)).findings = .ok findings := by
  intro hall
  let walker : Walker := ⟨⟨Rule.builtin⟩, Pointer.root, false⟩
  obtain ⟨d, hload⟩ : ∃ d, LoadedDocument.ofRaw unnameableDocument = .ok d :=
    exists_ok_of_isSome (by decide +kernel)
  have hbroken : (LoadedDocument.ofRaw unnameableDocument).toOption.all (fun d =>
      0 < d.components.length && (walker.walk d.graph (.node 0)).findings.toOption.isNone)
      = true := by decide +kernel
  simp only [hload, Except.toOption, Option.all_some, Bool.and_eq_true, decide_eq_true_eq]
    at hbroken
  obtain ⟨findings, hfindings⟩ := hall _ d hload walker (fun _ h => h) 0 hbroken.1
  simp [hfindings] at hbroken

end Lint

end ApiLint
