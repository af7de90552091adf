import Mathlib.Data.List.Flatten
import Mathlib.Data.List.Pairwise
import ApiLint.Proofs.Lint.Stops

/-!
# The walks of a linter cover the document

The walks of a linter stop at references. Together they come to every place of a component that is
no alias, and to the places of the schemas in line of it, once each; they never come to the places
that belong to an alias. No finding is lost: what a walk that follows references finds, from
whatever component, one of the walks of the linter finds as well.
-/

namespace ApiLint

open Walk

/-! ### Listings -/

namespace Walk

lemma place_of_arrival? {g : Graph} {pointer : Pointer} {place : Nat} {stop : Stop}
    (h : arrival? g pointer (.node place) [] = some stop) : stop.place = place := by
  obtain ⟨stops, hstops, hlast⟩ := Option.bind_eq_some_iff.mp h
  obtain ⟨first, hfirst, rfl⟩ := trail_nil_eq_some_iff.mp hstops
  obtain ⟨hchild, _⟩ := Graph.resolve_eq_ok_iff.mp (Stop.resolve_of_at? hfirst)
  cases hlast
  cases hchild
  rfl

end Walk

/-! ### Lists without repetition -/

/-- If nothing is repeated in lists that are put one behind the other, and some of the lists are
left out, then an element stands once in what remains, or not at all. -/
lemma count_flatMap_filter {α β : Type} [BEq β] [LawfulBEq β] {f : α → List β} {xs : List α}
    (hnodup : (xs.flatMap f).Nodup) {x : α} (hx : x ∈ xs) {b : β} (hb : b ∈ f x) (keep : α → Bool) :
    ((xs.filter keep).flatMap f).count b = if keep x then 1 else 0 := by
  cases hkeep : keep x with
  | true =>
    apply List.count_eq_one_of_mem
    · exact hnodup.sublist (List.filter_sublist.flatMap f)
    · exact List.mem_flatMap.mpr ⟨x, List.mem_filter.mpr ⟨hx, hkeep⟩, hb⟩
  | false =>
    apply List.count_eq_zero.mpr
    intro hmem
    obtain ⟨y, hy, hby⟩ := List.mem_flatMap.mp hmem
    obtain ⟨hy, hkeepy⟩ := List.mem_filter.mp hy
    have hne : x ≠ y := by
      rintro rfl
      simp [hkeep] at hkeepy
    have : Std.Symm (Function.onFun List.Disjoint f) := ⟨fun _ _ h => h.symm⟩
    exact (List.nodup_flatMap.mp hnodup).2.forall hx hy hne hb hby

/-- The places of consecutive intervals, each with one more place in front, are the places in front
and those of the whole interval. -/
lemma Chain.perm_places {α β : Type} {R : Nat → Nat → α → β → Prop} {f : β → List Nat}
    {place : β → Nat} {lo hi : Nat} {as : List α} {bs : List β} (h : Chain R lo hi as bs)
    (hR : ∀ lo hi a b, R lo hi a b →
      lo ≤ hi ∧ (f b).Perm (place b :: List.range' lo (hi - lo))) :
    (bs.flatMap f).Perm (bs.map place ++ List.range' lo (hi - lo)) := by
  induction h with
  | nil => simp
  | @cons lo mid hi a b as bs head tail ih =>
    obtain ⟨hle, hhead⟩ := hR _ _ _ _ head
    have hle' : mid ≤ hi := tail.le fun _ _ _ _ h => (hR _ _ _ _ h).1
    rw [List.flatMap_cons, List.map_cons, List.cons_append, ← range'_append_range' hle hle']
    have hswap : (List.range' lo (mid - lo) ++ (bs.map place ++ List.range' mid (hi - mid))).Perm
        (bs.map place ++ (List.range' lo (mid - lo) ++ List.range' mid (hi - mid))) := by
      rw [← List.append_assoc, ← List.append_assoc]
      exact List.perm_append_comm.append_right _
    exact (hhead.append ih).trans (hswap.cons _)

/-! ### Stops of the walks -/

namespace LoadedDocument

variable {document : Raw} {d : LoadedDocument} {cs : Components}

/-- Over the walks from all components, aliases included, no place comes twice. -/
lemma nodup_places (hcs : cs.RenderedBy d.graph) (hnames : "" ∉ cs.names)
    (h : Chain (cs.Places d) cs.entries.length d.graph.nodes.size cs.entries d.components.zipIdx) :
    (d.components.zipIdx.flatMap d.placesFrom).Nodup := by
  have hmem := h.imp_of_mem (S := fun lo hi e c => e ∈ cs.entries ∧ cs.Places d lo hi e c)
    fun _ _ e he _ hplaces => ⟨he, hplaces⟩
  have hperm : (d.components.zipIdx.flatMap d.placesFrom).Perm (d.components.zipIdx.map Prod.snd
      ++ List.range' cs.entries.length (d.graph.nodes.size - cs.entries.length)) := by
    refine hmem.perm_places fun lo hi e c hplaces => ?_
    obtain ⟨_, _, _, hle, _, hplaces⟩ := toursFrom hcs hnames hplaces.1 hplaces.2
    exact ⟨hle, hplaces⟩
  have hlength : cs.entries.length = d.components.length := by
    simpa using h.forall₂.length_eq
  rw [hperm.nodup_iff, List.zipIdx_map_snd, List.nodup_append]
  refine ⟨List.nodup_range', List.nodup_range', ?_⟩
  intro place hplace other hother
  rw [List.mem_range'_1] at hplace hother
  omega

/-- The walks of a linter come to the place of a schema in line once, but never if it belongs to an
alias. -/
lemma count_places (hcs : cs.RenderedBy d.graph) (hnames : "" ∉ cs.names)
    (h : Chain (cs.Places d) cs.entries.length d.graph.nodes.size cs.entries d.components.zipIdx)
    {i : Nat} {e : Raw × Raw} (he : cs.entries[i]? = some e) :
    ∃ (target : String) (shape : Entries), cs.aliasTarget e.1.text e.2 = .ok (target, .dict shape)
      ∧ ∀ s ∈ shape.inlineSchemas, ∃ stop lo hi,
        arrival? d.graph (cs.pointerTo e.1.text) (.node i) s.path = some stop
        ∧ cs.Renders d.graph lo hi s.entries stop.node
        ∧ (d.visits.flatten.map Stop.place).count stop.place
          = if (Components.reference? e.2).isSome then 0 else 1 := by
  obtain ⟨c, lo, hi, hc, hplaces⟩ := h.getElem? he
  have hmem : c ∈ d.components.zipIdx := List.mem_of_getElem? hc
  have hi : c.2 = i := by
    rw [List.getElem?_zipIdx, Option.map_eq_some_iff] at hc
    obtain ⟨_, _, rfl⟩ := hc
    simp
  obtain ⟨target, shape, htarget, _, hmeets, _⟩ :=
    toursFrom hcs hnames (List.mem_of_getElem? he) hplaces
  refine ⟨target, shape, htarget, fun s hs => ?_⟩
  obtain ⟨visit, hvisit, hmeet⟩ := exists_of_forall₂_of_mem_left hmeets hs
  obtain ⟨lo', hi', hrenders⟩ := hmeet.renders
  refine ⟨visit.2, lo', hi', ?_, hrenders, ?_⟩
  · rw [← hmeet.path, ← hplaces.pointer, ← hi]
    exact LoadedDocument.arrival?_of_mem_pathsFrom hvisit
  · rw [places_visits, count_flatMap_filter (nodup_places hcs hnames h) hmem
      (List.mem_map_of_mem hvisit) d.isWalked]
    have halias : (Fields.find? d.aliases c.1.1).isSome = (Components.reference? e.2).isSome :=
      Bool.eq_iff_iff.mpr hplaces.isAlias
    rw [isWalked, ← Option.not_isSome, halias]
    cases (Components.reference? e.2).isSome with
    | true => rfl
    | false => rfl

end LoadedDocument

/-! ### Findings without their places -/

/-- What a finding says, wherever it says it. -/
def Finding.content (f : Finding) : String × FindingKind × String := (f.rule, f.kind, f.message)

namespace Components

variable {document : Raw} {d : LoadedDocument} {cs : Components}

lemma content_compositionFindings (es : Entries) (kind : CompositionKind)
    (pointer other : Pointer) :
    (cs.compositionFindings es kind pointer).map Finding.content
      = (cs.compositionFindings es kind other).map Finding.content := by
  unfold compositionFindings
  split
  · rw [List.map_flatMap, List.map_flatMap]
    refine List.flatMap_congr fun e _ => ?_
    simp only [memberFindings, List.map_append, apply_ite (List.map Finding.content), List.map_cons,
      List.map_nil, Finding.content]
  · rfl

lemma content_literalFindings (es : Entries) (pointer other : Pointer) :
    (cs.literalFindings es pointer).map Finding.content
      = (cs.literalFindings es other).map Finding.content := by
  rw [literalFindings, literalFindings, List.map_flatMap, List.map_flatMap]
  refine List.flatMap_congr fun l _ => ?_
  rw [mismatchesAt, mismatchesAt, List.map_map, List.map_map]
  rfl

/-- The findings about a raw schema say the same wherever it is met. -/
lemma content_schemaFindings (es : Entries) (pointer other : Pointer) :
    (cs.schemaFindings es pointer).map Finding.content
      = (cs.schemaFindings es other).map Finding.content := by
  rw [schemaFindings, schemaFindings]
  simp only [List.map_append]
  rw [content_compositionFindings es .oneOf pointer other,
    content_compositionFindings es .anyOf pointer other, content_literalFindings es pointer other]

/-- Whatever is found about a raw schema in line of the shape of a component is found about one of
the components that are no aliases. -/
lemma exists_componentFindings (hcs : (Raw.dict cs.entries).isTextKeyed = true) {e : Raw × Raw}
    (he : e ∈ cs.entries) {target : String} {shape : Entries}
    (htarget : cs.aliasTarget e.1.text e.2 = .ok (target, .dict shape)) {s : InlineSchema}
    (hs : s ∈ shape.inlineSchemas) {pointer : Pointer} {f : Finding}
    (hf : f ∈ cs.schemaFindings s.entries pointer) :
    ∃ fs ∈ cs.componentFindings, ∃ f' ∈ fs, f'.content = f.content := by
  obtain ⟨hplain, hfound, _⟩ := aliasTarget_eq_ok (Raw.field?_text_of_mem hcs he) htarget
  have hinline : (Raw.dict shape).inline? = some shape := Raw.inline?_eq_some_iff.mpr ⟨rfl, hplain⟩
  let here : Pointer := (cs.pointerTo target).join s.segments
  have hcontent : f.content ∈ (cs.schemaFindings s.entries here).map Finding.content := by
    rw [content_schemaFindings s.entries here pointer]
    exact List.mem_map_of_mem hf
  obtain ⟨f', hf', hsame⟩ := List.mem_map.mp hcontent
  refine ⟨cs.inlineFindings shape (cs.pointerTo target), ?_, f', ?_, hsame⟩
  · refine List.mem_filterMap.mpr ⟨(.str target, .dict shape), Entries.mem_of_field? hfound, ?_⟩
    rw [hinline]
    rfl
  · exact List.mem_flatMap.mpr ⟨s, hs, hf'⟩

/-- What a walk finds, be it one that follows references, is found about a component that is no
alias. -/
lemma exists_componentFindings_of_walk (hcs : cs.RenderedBy d.graph) (hnames : "" ∉ cs.names)
    {base : Pointer} {place : Nat} (hplace : place < cs.entries.length)
    (hroot : ∃ result, d.graph.resolve (.node place) = .ok result) :
    ∃ fs, ((Walker.mk RuleSet.builtin base false).walk d.graph (.node place)).findings = .ok fs
      ∧ ∀ f ∈ fs, ∃ gs ∈ cs.componentFindings, ∃ f' ∈ gs, f'.content = f.content := by
  have hwellformed := (hcs.isSound hnames).isWellFormed
  have hnamed := hcs.namesRepeats hnames hplace
  refine ⟨_, findings_walk hwellformed (hcs.builtin_reports hnames) hroot hnamed, ?_⟩
  intro f hf
  obtain ⟨visit, hvisit, hf⟩ := List.mem_flatMap.mp hf
  have hnode := getElem?_of_mem_listing hvisit
  obtain ⟨e, he, target, shape, htarget, s, hs, lo, hi, hrenders⟩ := hcs.exists_renders hnames hnode
  rw [findingsAt_eq hcs hnames hnode hrenders] at hf
  exact exists_componentFindings hcs.keyed he htarget hs hf

end Components

namespace Lint

/-- A text-keyed document whose components have names that are not empty, and whose schemas can be
built. Whatever rules a linter has, as long as they only report, its walks come to what these find
at certain stops, and linting adds entries for that unless the envelope has issues. To the node of a
component that is no alias, and to the nodes of the schemas in line of it, the walks come once; to
the node of an alias, and to the nodes of the schemas in line of its shape that are laid for it,
they never come. What a walk with the rules of the library finds that follows references, from
whatever component, one of the walks of the linter finds as well. -/
theorem walks_cover_document {document : Raw} (hdocument : document.isTextKeyed = true)
    {cs : Components} (hcs : Components.ofDocument document = .ok cs) (hnames : "" ∉ cs.names)
    {d : LoadedDocument} (hload : LoadedDocument.ofRaw document = .ok d) :
    (∃ visits : List (List Stop),
      (∀ (rules : RuleSet) (found : Rule → Examination),
        (∀ rule ∈ rules.rules, rule.Reports d.graph (found rule)) →
        (d.walks rules).map Outcome.findings
            = visits.map (fun stops => .ok (stops.flatMap (findingsAt rules found)))
          ∧ ∀ places result, (lintDocument rules places document result).result.errors
            = result.errors ++ if Envelope.issues document = .ok []
              then (visits.flatten.flatMap (findingsAt rules found)).map
                (findingEntry result.file places)
              else issueEntries result.file places ((Envelope.issues document).toOption.getD []))
      ∧ ∀ (i : Nat) (e : Raw × Raw), cs.entries[i]? = some e →
        ∃ (target : String) (shape : Entries),
        cs.aliasTarget e.1.text e.2 = .ok (target, .dict shape)
        ∧ ∀ s ∈ shape.inlineSchemas, ∃ stop lo hi,
          arrival? d.graph (cs.pointerTo e.1.text) (.node i) s.path = some stop
          ∧ cs.Renders d.graph lo hi s.entries stop.node
          ∧ (visits.flatten.map Stop.place).count stop.place
            = if (Components.reference? e.2).isSome then 0 else 1)
    ∧ ∀ i < cs.entries.length, ∀ base : Pointer, ∃ fs,
      ((Walker.mk RuleSet.builtin base false).walk d.graph (.node i)).findings = .ok fs
      ∧ ∀ f ∈ fs, ∃ walk ∈ d.walks RuleSet.builtin, ∃ gs, walk.findings = .ok gs
        ∧ ∃ f' ∈ gs, f'.rule = f.rule ∧ f'.kind = f.kind ∧ f'.message = f.message := by
  have hrendered := LoadedDocument.renderedBy_graph hdocument hcs hload
  have hchain := LoadedDocument.chain_components hdocument hcs hload
  refine ⟨⟨d.visits, fun rules found hrules => ?_, fun i e he => ?_⟩, fun i hi base => ?_⟩
  · have hwalks := LoadedDocument.findings_walks_of_reports hrendered hnames hchain hrules
    exact ⟨hwalks, lintDocument_errors_of_reports hload hwalks⟩
  · exact LoadedDocument.count_places hrendered hnames hchain he
  · obtain ⟨place, _, _, hplace, _, _, node, _, hnode, _⟩ :=
      hrendered.components.getElem? (List.getElem?_eq_getElem hi)
    have hroot : ∃ result, d.graph.resolve (.node i) = .ok result := by
      obtain ⟨_, rfl⟩ := List.getElem?_eq_some_iff.mp hplace
      rw [List.getElem_range] at hnode
      exact ⟨_, Graph.resolve_node hnode⟩
    obtain ⟨fs, hfs, hfound⟩ :=
      Components.exists_componentFindings_of_walk hrendered hnames hi hroot
    refine ⟨fs, hfs, fun f hf => ?_⟩
    obtain ⟨gs, hgs, f', hf', hcontent⟩ := hfound f hf
    have hmem : .ok gs ∈ (d.walks RuleSet.builtin).map Outcome.findings := by
      rw [d.findings_walks hdocument hcs hload hnames]
      exact List.mem_map_of_mem hgs
    obtain ⟨walk, hwalk, hfindings⟩ := List.mem_map.mp hmem
    simp only [Finding.content, Prod.mk.injEq] at hcontent
    exact ⟨walk, hwalk, gs, hfindings, f', hf', hcontent⟩

theorem walks_cover_document_sample : ∃ d, LoadedDocument.ofRaw sampleDocument = .ok d
    ∧ ∃ visits : List (List Stop),
      (d.walks RuleSet.builtin).map Outcome.findings = visits.map (fun stops =>
        .ok (stops.flatMap (findingsAt RuleSet.builtin (Examination.ofBuiltin d.graph))))
      ∧ (visits.flatten.map Stop.place).count 0 = 1 ∧ (visits.flatten.map Stop.place).count 1 = 0
      ∧ (visits.flatten.map Stop.place).count 2 = 1 := by
  obtain ⟨d, hload⟩ := ofRaw_sample
  have hkeyed : sampleDocument.isTextKeyed = true := by decide +kernel
  have hnames : "" ∉ sampleComponents.names := by decide +kernel
  obtain ⟨⟨visits, hvisits, hcount⟩, _⟩ :=
    walks_cover_document hkeyed ofDocument_sample hnames hload
  have hreports := (LoadedDocument.renderedBy_graph hkeyed ofDocument_sample hload).builtin_reports
    hnames
  have hcomponent : ∀ (i : Nat) (e : Raw × Raw), sampleComponents.entries[i]? = some e →
      (visits.flatten.map Stop.place).count i
        = if (Components.reference? e.2).isSome then 0 else 1 := by
    intro i e he
    obtain ⟨_, shape, _, hshape⟩ := hcount i e he
    have hself : ⟨[], [], shape⟩ ∈ shape.inlineSchemas := by
      rw [Entries.inlineSchemas_eq]
      exact List.mem_cons_self ..
    obtain ⟨stop, _, _, hstop, _, htimes⟩ := hshape _ hself
    rwa [place_of_arrival? hstop] at htimes
  exact ⟨d, hload, visits, (hvisits _ _ hreports).1, hcomponent 0 _ rfl, hcomponent 1 _ rfl,
    hcomponent 2 _ rfl⟩

/-- A document whose schemas can be built although its envelope has an issue: there is no such
type. -/
def unwalkedDocument : Raw :=
  .ofFields [("openapi", .str "3.0.0"),
    ("components", .ofFields [("schemas", .ofFields [
      ("Tag", .ofFields [("type", .str "text"), ("default", .int 7)])])])]

def unwalkedComponents : Components :=
  ⟨⟨.openapi, 3, 0, 0⟩,
    [(.str "Tag", .ofFields [("type", .str "text"), ("default", .int 7)])]⟩

/-- A walk from its component finds a mismatch, but linting it adds no entry of that rule. -/
theorem unwalked_document_without_mismatches :
    unwalkedDocument.isTextKeyed = true
    ∧ Components.ofDocument unwalkedDocument = .ok unwalkedComponents
    ∧ "" ∉ unwalkedComponents.names
    ∧ ∃ d fs, LoadedDocument.ofRaw unwalkedDocument = .ok d
      ∧ ((Walker.mk RuleSet.builtin "#/components/schemas/Tag" false).walk d.graph
          (.node 0)).findings = .ok fs
      ∧ ∃ f ∈ fs, ∀ e ∈ (lintDocument RuleSet.builtin [] unwalkedDocument default).result.errors,
        e.rule ≠ some f.rule := by
  have hwalk : ((LoadedDocument.ofRaw unwalkedDocument).toOption.any fun d =>
      ((Walker.mk RuleSet.builtin "#/components/schemas/Tag" false).walk d.graph
        (.node 0)).findings.toOption.any fun fs => fs.any fun f => f.rule == Matching.ruleName)
      = true := by decide +kernel
  have hlint : ∀ e ∈ (lintDocument RuleSet.builtin [] unwalkedDocument default).result.errors,
      e.rule ≠ some Matching.ruleName := by decide +kernel
  obtain ⟨d, hload, hwalk⟩ := exists_ok_of_any hwalk
  obtain ⟨fs, hfs, hfound⟩ := exists_ok_of_any hwalk
  obtain ⟨f, hf, hrule⟩ := List.any_eq_true.mp hfound
  refine ⟨by decide +kernel, by rfl, by decide +kernel, d, fs, hload, hfs, f, hf, ?_⟩
  rw [beq_iff_eq.mp hrule]
  exact hlint

end Lint

end ApiLint
