import ApiLint.Proofs.Lint.Findings

/-!
# Where the walks of a linter stop

The walks of a linter stop at references, and so each of them meets the schemas in line of one
component. Where they stop does not depend on the rules: whatever these are, as long as they only
report, the walks come to what the rules find at the stops.
-/

namespace ApiLint

open Walk

namespace LoadedDocument

/-- The paths from a component, given with its place, that a walk takes which stops at
references. -/
def pathsFrom (d : LoadedDocument) (c : (String × Component) × Nat) : List (List Nat × Stop) :=
  listing ⟨⟨[]⟩, c.1.2.pointer, true⟩ d.graph (depthBound d.graph) [] c.1.2.pointer (.node c.2)

/-- The places that the walk from a component comes to. -/
def placesFrom (d : LoadedDocument) (c : (String × Component) × Nat) : List Nat :=
  (d.pathsFrom c).map fun e => e.2.place

/-- A linter walks a component that is no alias. -/
def isWalked (d : LoadedDocument) (c : (String × Component) × Nat) : Bool :=
  (Fields.find? d.aliases c.1.1).isNone

/-- The stops of the walks of a linter, one list for each walk. -/
def visits (d : LoadedDocument) : List (List Stop) :=
  (d.components.zipIdx.filter d.isWalked).map fun c => (d.pathsFrom c).map Prod.snd

variable {document : Raw} {d : LoadedDocument} {cs : Components}

lemma places_visits : d.visits.flatten.map Stop.place
    = (d.components.zipIdx.filter d.isWalked).flatMap d.placesFrom := by
  rw [visits, ← List.flatMap_def, List.map_flatMap]
  refine List.flatMap_congr fun c _ => ?_
  rw [List.map_map]
  rfl

lemma walks_eq (rules : RuleSet) : d.walks rules
    = (d.components.zipIdx.filter d.isWalked).map fun c =>
      (Walker.mk rules c.1.2.pointer true).walk d.graph (.node c.2) := by
  rw [walks, walksFrom, ← List.filterMap_eq_map, List.filterMap_filter]
  refine List.filterMap_congr fun c _ => ?_
  obtain ⟨⟨name, component⟩, place⟩ := c
  cases halias : Fields.find? d.aliases name with
  | none => simp [isWalked, halias]
  | some target => simp [isWalked, halias]

/-- The entry that a component comes from. -/
lemma exists_entry
    (h : Chain (cs.Places d) cs.entries.length d.graph.nodes.size cs.entries d.components.zipIdx)
    {c : (String × Component) × Nat} (hc : c ∈ d.components.zipIdx) :
    ∃ e lo hi, cs.entries[c.2]? = some e ∧ cs.Places d lo hi e c := by
  have hat : d.components.zipIdx[c.2]? = some c := by
    rw [List.getElem?_zipIdx, List.mem_zipIdx_iff_getElem?.mp hc]
    simp
  have hlt : c.2 < cs.entries.length := by
    rw [h.forall₂.length_eq]
    exact (List.getElem?_eq_some_iff.mp hat).1
  obtain ⟨c', lo, hi, hc', hplaces⟩ := h.getElem? (List.getElem?_eq_getElem hlt)
  rw [hat] at hc'
  cases hc'
  exact ⟨_, lo, hi, List.getElem?_eq_getElem hlt, hplaces⟩

lemma arrival?_of_mem_pathsFrom {c : (String × Component) × Nat} {visit : List Nat × Stop}
    (h : visit ∈ d.pathsFrom c) :
    arrival? d.graph c.1.2.pointer (.node c.2) visit.1 = some visit.2 := by
  have hdepth : (d.graph.keys \ ([] : List NodeKey).toFinset).card < depthBound d.graph := by
    simpa using card_keys_lt_depthBound d.graph
  exact arrival?_of_mem_listing hdepth h

/-- The tour of a component. -/
lemma toursFrom (hcs : cs.RenderedBy d.graph) (hnames : "" ∉ cs.names) {lo hi : Nat} {e : Raw × Raw}
    (he : e ∈ cs.entries) {c : (String × Component) × Nat} (h : cs.Places d lo hi e c) :
    ∃ (target : String) (shape : Entries), cs.aliasTarget e.1.text e.2 = .ok (target, .dict shape)
      ∧ lo ≤ hi
      ∧ List.Forall₂ (cs.Meets d.graph c.1.2.pointer) shape.inlineSchemas (d.pathsFrom c)
      ∧ (d.placesFrom c).Perm (c.2 :: List.range' lo (hi - lo)) := by
  obtain ⟨target, shape, node, htarget, hnode, hreference, hrenders⟩ := h.renders
  have hle : lo ≤ hi := hrenders.children.le fun _ _ _ _ h => Components.le_of_stands h.2
  have hbase : c.1.2.pointer.isEmpty = false := by
    rw [h.pointer]
    exact Pointer.isEmpty_push ..
  exact ⟨target, shape, htarget, hle, Components.tours_component hcs hnames rfl hbase hnode
    hreference (List.mem_map_of_mem he) hrenders (card_keys_lt_depthBound _)⟩

/-- A linter stops at the schemas in line of the components that are no aliases. -/
lemma exists_of_mem_visits (hcs : cs.RenderedBy d.graph) (hnames : "" ∉ cs.names)
    (h : Chain (cs.Places d) cs.entries.length d.graph.nodes.size cs.entries d.components.zipIdx)
    {stop : Stop} (hstop : stop ∈ d.visits.flatten) :
    ∃ (i : Nat) (e : Raw × Raw) (es : Entries) (s : InlineSchema) (lo hi : Nat),
      cs.entries[i]? = some e ∧ e.2.inline? = some es ∧ s ∈ es.inlineSchemas
      ∧ arrival? d.graph (cs.pointerTo e.1.text) (.node i) s.path = some stop
      ∧ stop.pointer = (cs.pointerTo e.1.text).join s.segments
      ∧ d.graph.nodes[stop.place]? = some stop.node
      ∧ cs.Renders d.graph lo hi s.entries stop.node := by
  obtain ⟨stops, hstops, hstop⟩ := List.mem_flatten.mp hstop
  obtain ⟨c, hc, rfl⟩ := List.mem_map.mp hstops
  obtain ⟨hc, hwalked⟩ := List.mem_filter.mp hc
  obtain ⟨visit, hvisit, rfl⟩ := List.mem_map.mp hstop
  obtain ⟨e, lo, hi, he, hplaces⟩ := exists_entry h hc
  have hplain : Components.reference? e.2 = none := by
    have hnot : ¬(Components.reference? e.2).isSome := by
      rw [← hplaces.isAlias, Option.not_isSome_iff_eq_none]
      exact Option.isNone_iff_eq_none.mp hwalked
    simpa using hnot
  obtain ⟨target, es, htarget, _, hmeets, _⟩ :=
    toursFrom hcs hnames (List.mem_of_getElem? he) hplaces
  obtain ⟨s, hs, hmeet⟩ := exists_of_forall₂_of_mem_right hmeets hvisit
  obtain ⟨lo', hi', hrenders⟩ := hmeet.renders
  have hbody : e.2 = .dict es := (Components.shape_eq_of_reference?_eq_none hplain htarget).symm
  refine ⟨c.2, e, es, s, lo', hi', he, ?_, hs, ?_, ?_, hmeet.node, hrenders⟩
  · rw [hbody] at hplain ⊢
    exact Raw.inline?_eq_some_iff.mpr ⟨rfl, hplain⟩
  · rw [← hmeet.path, ← hplaces.pointer]
    exact arrival?_of_mem_pathsFrom hvisit
  · rw [hmeet.pointer, hplaces.pointer]

/-- What the walks of a linter come to, whatever its rules report: what they find at the stops. -/
lemma findings_walks_of_reports (hcs : cs.RenderedBy d.graph) (hnames : "" ∉ cs.names)
    (h : Chain (cs.Places d) cs.entries.length d.graph.nodes.size cs.entries d.components.zipIdx)
    {rules : RuleSet} {found : Rule → Examination}
    (hrules : ∀ rule ∈ rules.rules, rule.Reports d.graph (found rule)) :
    (d.walks rules).map Outcome.findings
      = d.visits.map fun stops => .ok (stops.flatMap (findingsAt rules found)) := by
  rw [walks_eq, visits, List.map_map, List.map_map]
  refine List.map_congr_left fun c hc => ?_
  obtain ⟨e, lo, hi, he, hplaces⟩ := exists_entry h (List.mem_of_mem_filter hc)
  obtain ⟨_, _, node, _, hnode, _⟩ := hplaces.renders
  have hnamed : d.graph.NamesRepeats [] (.node c.2) :=
    hcs.namesRepeats hnames (List.getElem?_eq_some_iff.mp he).1
  have hlisting : listing ⟨rules, c.1.2.pointer, true⟩ d.graph (depthBound d.graph) []
      c.1.2.pointer (.node c.2) = d.pathsFrom c := listing_congr (by rfl)
  dsimp only [Function.comp_apply]
  rw [findings_walk (hcs.isSound hnames).isWellFormed hrules ⟨_, Graph.resolve_node hnode⟩
    hnamed, hlisting, findingsAlong, List.flatMap_map]

end LoadedDocument

namespace Lint

/-- Linting a document without issues in its envelope, with rules that only report, adds entries for
what they find at the stops of the walks; with issues, it adds those. -/
lemma lintDocument_errors_of_reports {document : Raw} {d : LoadedDocument} {rules : RuleSet}
    {found : Rule → Examination} {visits : List (List Stop)}
    (hload : LoadedDocument.ofRaw document = .ok d)
    (hwalks : (d.walks rules).map Outcome.findings
      = visits.map fun stops => .ok (stops.flatMap (findingsAt rules found)))
    (places : SourceMap) (result : LintResult) :
    (lintDocument rules places document result).result.errors = result.errors
      ++ if Envelope.issues document = .ok []
        then (visits.flatten.flatMap (findingsAt rules found)).map (findingEntry result.file places)
        else issueEntries result.file places ((Envelope.issues document).toOption.getD []) := by
  by_cases henvelope : Envelope.issues document = .ok []
  · have hall : (d.walks rules).map Outcome.findings
        = (visits.map fun stops => stops.flatMap (findingsAt rules found)).map .ok := by
      rw [hwalks, List.map_map]
      rfl
    have hflatten : visits.flatten.flatMap (findingsAt rules found)
        = (visits.map fun stops => stops.flatMap (findingsAt rules found)).flatten := by
      rw [← List.flatMap_def, ← List.flatMap_id, List.flatMap_assoc]
      rfl
    rw [if_pos henvelope, lintDocument_of_ok henvelope hload, hflatten]
    exact (lintLoaded_of_findings hall result).2
  · rw [if_neg henvelope]
    cases hissues : Envelope.issues document with
    | error e => simp [lintDocument, hissues, issueEntries, Except.toOption]
    | ok is =>
      rw [lintDocument_of_issues hissues fun hnil => henvelope (hnil ▸ hissues)]
      rfl

end Lint

end ApiLint
