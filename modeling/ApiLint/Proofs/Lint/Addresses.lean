import ApiLint.Proofs.Document.Envelope
import ApiLint.Proofs.Lint.Stops
import ApiLint.Proofs.Matching.Rejected

/-!
# The pointers of findings are addresses

The segments of the pointer of a finding lead through the document to what the finding is about: the
part of a literal that the matcher rejects, or the composition whose members are examined. The index
of a member of a composition is not in the pointer. So behind a composition on the way the segments
lead nowhere, and they lead to its list up to there.
-/

namespace ApiLint

open Walk

namespace Components

/-- What a finding at a stop is about, given the raw schema that stands there. -/
inductive Concerns (cs : Components) (g : Graph) (es : Entries) (stop : Stop) (f : Finding) :
    Raw → Prop
  /-- A mismatch is about the part of a literal of the schema that the matcher rejects. -/
  | literal {segments path : List String} {raw part : Raw} {value : Literal}
      (written : (segments, raw) ∈ es.rawLiterals)
      (declared : (segments, value) ∈ stop.node.literals)
      (converted : cs.literal es raw = .ok value) (rejected : cs.Rejects g raw value path part)
      (finding : f = Matching.mismatch (stop.pointer.join (segments ++ path))) :
      Concerns cs g es stop f part
  /-- Any other finding is about the list of a composition whose members are examined. -/
  | composition {kind : CompositionKind} {members : List Raw} {findings : List Finding}
      (written : es.field? kind.keyword = some (.list members))
      (rule : Discrimination.ruleName? kind = some f.rule)
      (examined : Discrimination.findings g stop.node kind stop.pointer = .ok findings)
      (finding : f ∈ findings) : Concerns cs g es stop f (.list members)

/-- The pointer of a finding at a stop as an address, given the entry of the component and the
schema in line that stands at the stop. -/
structure Addresses (cs : Components) (document : Raw) (g : Graph) (e : Raw × Raw) (es : Entries)
    (s : InlineSchema) (stop : Stop) (f : Finding) : Prop where
  /-- Without a composition on the way to the schema, the segments lead to what the finding is
  about. -/
  plain : (∀ step ∈ s.steps, step.1.isMember = false) →
    ∃ target, document.at? (Pointer.segments f.pointer) = some target
      ∧ cs.Concerns g s.entries stop f target
  /-- Otherwise they lead to the list of the first composition up to its keyword, and no further. -/
  member : ∀ before kind index after, s.steps = before ++ (.member kind, index) :: after →
    (∀ step ∈ before, step.1.isMember = false) →
    ∃ outer ∈ es.inlineSchemas, outer.steps = before ∧ ∃ members front,
      outer.entries.field? kind.keyword = some (.list members)
      ∧ front = cs.version.schemasPath ++ [e.1.text] ++ (outer.segments ++ [kind.keyword])
      ∧ front <+: Pointer.segments f.pointer ∧ document.at? front = some (.list members)
      ∧ ∀ longer, longer <+: Pointer.segments f.pointer → front.length < longer.length →
        document.at? longer = none

/-- A finding that is reported at a schema in line of a component, and whose pointer is an
address. -/
def IsAddressed (cs : Components) (document : Raw) (g : Graph) (f : Finding) : Prop :=
  ∃ (i : Nat) (e : Raw × Raw) (es : Entries) (s : InlineSchema) (stop : Stop),
    cs.entries[i]? = some e ∧ e.2.inline? = some es ∧ s ∈ es.inlineSchemas
    ∧ arrival? g (cs.pointerTo e.1.text) (.node i) s.path = some stop
    ∧ f ∈ findingsAt RuleSet.builtin (Examination.ofBuiltin g) stop
    ∧ cs.Addresses document g e es s stop f

variable {cs : Components} {g : Graph}

/-- A finding about the members of a composition has the pointer to their list. -/
lemma of_mem_compositionFindings {es : Entries} {kind : CompositionKind} {pointer : Pointer}
    {f : Finding} (hf : f ∈ cs.compositionFindings es kind pointer) :
    Discrimination.ruleName? kind = some f.rule ∧ f.pointer = pointer.join [kind.keyword]
      ∧ es.field? kind.keyword = some (.list (es.listAt kind.keyword)) := by
  unfold compositionFindings at hf
  split at hf
  · next rule property hrule _ =>
    obtain ⟨⟨raw, index⟩, hraw, hf⟩ := List.mem_flatMap.mp hf
    obtain ⟨rfl, hpointer⟩ := eq_of_mem_memberFindings hf
    rw [Entries.composition_outline] at hraw
    exact ⟨hrule, hpointer, Entries.field?_of_mem_listAt (List.fst_mem_of_mem_zipIdx hraw)⟩
  · cases hf

lemma exists_concerned_of_composition (hcs : cs.RenderedBy g) (hnames : "" ∉ cs.names)
    {lo hi : Nat} {es : Entries} {stop : Stop} (hrenders : cs.Renders g lo hi es stop.node)
    {kind : CompositionKind} (hkind : kind ≠ .allOf) {f : Finding}
    (hf : f ∈ cs.compositionFindings es kind stop.pointer) :
    ∃ target, f.pointer = stop.pointer.join [kind.keyword]
      ∧ (Raw.dict es).at? [kind.keyword] = some target ∧ cs.Concerns g es stop f target := by
  have hexamined := compositionFindings_eq hcs hnames hrenders hkind stop.pointer
  obtain ⟨hrule, hpointer, hlist⟩ := of_mem_compositionFindings hf
  exact ⟨_, hpointer, (Raw.at?_singleton ..).trans hlist, .composition hlist hrule hexamined hf⟩

lemma exists_concerned_of_literal (hcs : cs.RenderedBy g) {lo hi : Nat} {es : Entries} {stop : Stop}
    (hnode : g.nodes[stop.place]? = some stop.node) (hrenders : cs.Renders g lo hi es stop.node)
    (hadmitted : Envelope.IsAdmitted (.dict es)) {f : Finding}
    (hf : f ∈ cs.literalFindings es stop.pointer) :
    ∃ tail target, f.pointer = stop.pointer.join tail ∧ (Raw.dict es).at? tail = some target
      ∧ cs.Concerns g es stop f target ∧ BeginWithWord tail := by
  obtain ⟨⟨segments, raw⟩, hl, hf⟩ := List.mem_flatMap.mp hf
  obtain ⟨path, hpath, rfl⟩ := List.mem_map.mp hf
  have hpointer :
      (stop.pointer.join segments).through path = stop.pointer.join (segments ++ path) := by
    rw [Pointer.through_eq_join (Pointer.isEmpty_join ..), Pointer.join_join]
  obtain ⟨⟨_, value⟩, hvalue, rfl, hconverted⟩ :=
    exists_of_forall₂_of_mem_left hrenders.declares.literals hl
  obtain ⟨part, hrejects⟩ := exists_rejects hcs
    (Entries.isTextKeyed_of_mem_rawLiterals hrenders.keyed hl) (governs_self hnode hrenders)
    hconverted hpath
  obtain ⟨hplace, hword⟩ := Entries.at?_of_mem_rawLiterals
    (fun raw hraw => Envelope.exists_list_of_enum hadmitted hraw) hl
  dsimp only at hplace hword
  refine ⟨segments ++ path, part, hpointer, ?_, .literal hl hvalue hconverted hrejects
    (by rw [← hpointer]), hword.append path⟩
  rw [Raw.at?_append, hplace]
  exact hrejects.leads

/-- Whatever is found about a raw schema, the pointer leads from there to what the finding is about,
and begins with a word. -/
lemma exists_concerned (hcs : cs.RenderedBy g) (hnames : "" ∉ cs.names) {lo hi : Nat} {es : Entries}
    {stop : Stop} (hnode : g.nodes[stop.place]? = some stop.node)
    (hrenders : cs.Renders g lo hi es stop.node) (hadmitted : Envelope.IsAdmitted (.dict es))
    {f : Finding} (hf : f ∈ cs.schemaFindings es stop.pointer) :
    ∃ tail target, f.pointer = stop.pointer.join tail ∧ (Raw.dict es).at? tail = some target
      ∧ cs.Concerns g es stop f target ∧ BeginWithWord tail := by
  simp only [schemaFindings, List.mem_append] at hf
  rcases hf with (hf | hf) | hf
  · obtain ⟨target, hconcerned⟩ := exists_concerned_of_composition hcs hnames hrenders (by simp) hf
    exact ⟨_, target, hconcerned.1, hconcerned.2.1, hconcerned.2.2, _, _, rfl, by decide⟩
  · obtain ⟨target, hconcerned⟩ := exists_concerned_of_composition hcs hnames hrenders (by simp) hf
    exact ⟨_, target, hconcerned.1, hconcerned.2.1, hconcerned.2.2, _, _, rfl, by decide⟩
  · exact exists_concerned_of_literal hcs hnode hrenders hadmitted hf

/-! ### Segments -/

lemma pointerTo_eq (name : String) :
    cs.pointerTo name = Pointer.root.join (cs.version.schemasPath ++ [name]) := by
  rw [pointerTo, container, Pointer.join_append]
  rfl

/-- The segments of a pointer below a component. -/
lemma segments_pointerTo (name : String) (segments tail : List String) :
    Pointer.segments (((cs.pointerTo name).join segments).join tail)
      = cs.version.schemasPath ++ [name] ++ (segments ++ tail) := by
  rw [pointerTo_eq, Pointer.join_join, Pointer.join_join, Pointer.segments_root_join]

variable {document : Raw}

/-- Without a composition on the way, a pointer below a schema in line leads to where its tail leads
from the schema. -/
lemma at?_segments (hdocument : document.isTextKeyed = true) (hcs : ofDocument document = .ok cs)
    {e : Raw × Raw} (he : e ∈ cs.entries) {es : Entries} (hes : e.2.inline? = some es)
    {s : InlineSchema} (hs : s ∈ es.inlineSchemas)
    (hplain : ∀ step ∈ s.steps, step.1.isMember = false) (tail : List String) :
    document.at? (cs.version.schemasPath ++ [e.1.text] ++ (s.segments ++ tail))
      = (Raw.dict s.entries).at? tail := by
  have hkeyed := (Raw.isTextKeyed_of_mem_dict (isTextKeyed_of_ofDocument hdocument hcs) he).2
  obtain ⟨hbody, _⟩ := Raw.inline?_eq_some_iff.mp hes
  rw [hbody] at hkeyed
  rw [Raw.at?_append, at?_component hdocument hcs he, Option.bind_some, hbody, Raw.at?_append,
    InlineSchema.segments_eq_address hplain, Entries.at?_of_mem_inlineSchemas hkeyed hs,
    Option.bind_some]

lemma beginWithWord_of_steps (steps : List (Edge × Nat)) {tail : List String}
    (htail : BeginWithWord tail) :
    BeginWithWord ((steps.flatMap fun step => step.1.segments) ++ tail) := by
  cases steps with
  | nil => exact htail
  | cons step steps =>
    rw [List.flatMap_cons, List.append_assoc]
    exact step.1.beginWithWord_segments.append _

/-- With a composition on the way, a pointer below a schema in line leads to the list of the first
one up to its keyword, and further on it leads nowhere. -/
lemma exists_front (hdocument : document.isTextKeyed = true) (hcs : ofDocument document = .ok cs)
    {e : Raw × Raw} (he : e ∈ cs.entries) {es : Entries} (hes : e.2.inline? = some es)
    {s : InlineSchema} (hs : s ∈ es.inlineSchemas) {before after : List (Edge × Nat)}
    {kind : CompositionKind} {index : Nat}
    (hsteps : s.steps = before ++ (.member kind, index) :: after)
    (hplain : ∀ step ∈ before, step.1.isMember = false) {tail : List String}
    (htail : BeginWithWord tail) :
    ∃ outer ∈ es.inlineSchemas, outer.steps = before ∧ ∃ members front,
      outer.entries.field? kind.keyword = some (.list members)
      ∧ front = cs.version.schemasPath ++ [e.1.text] ++ (outer.segments ++ [kind.keyword])
      ∧ front <+: cs.version.schemasPath ++ [e.1.text] ++ (s.segments ++ tail)
      ∧ document.at? front = some (.list members)
      ∧ ∀ longer, longer <+: cs.version.schemasPath ++ [e.1.text] ++ (s.segments ++ tail) →
        front.length < longer.length → document.at? longer = none := by
  obtain ⟨outer, houter, rfl, raw, hchild⟩ := Entries.exists_outer hs hsteps
  obtain ⟨hlist, _⟩ := Entries.field?_of_member hchild
  let front := cs.version.schemasPath ++ [e.1.text] ++ (outer.segments ++ [kind.keyword])
  have hfront : document.at? front = some (.list (outer.entries.listAt kind.keyword)) :=
    (at?_segments hdocument hcs he hes houter hplain _).trans ((Raw.at?_singleton ..).trans hlist)
  -- A walk leaves out the indices in compositions, and so the way goes on behind the keyword with
  -- what is no index.
  have hsegments : s.segments
      = outer.segments ++ [kind.keyword] ++ after.flatMap fun step => step.1.segments := by
    rw [InlineSchema.segments, hsteps, List.flatMap_append, List.flatMap_cons, List.append_assoc]
    rfl
  have hwhole : cs.version.schemasPath ++ [e.1.text] ++ (s.segments ++ tail)
      = front ++ ((after.flatMap fun step => step.1.segments) ++ tail) := by
    rw [hsegments]
    simp only [front, List.append_assoc]
  refine ⟨outer, houter, rfl, _, front, hlist, rfl, ?_, hfront, ?_⟩
  · rw [hwhole]
    exact List.prefix_append _ _
  · intro longer hlonger hlength
    rw [hwhole] at hlonger
    obtain ⟨more, rfl⟩ :=
      List.prefix_of_prefix_length_le (List.prefix_append front _) hlonger (Nat.le_of_lt hlength)
    have hmore := (List.prefix_append_right_inj front).mp hlonger
    obtain ⟨word, rest, hword, hindex⟩ := beginWithWord_of_steps after htail
    rw [hword] at hmore
    cases more with
    | nil => simp at hlength
    | cons first more =>
      obtain ⟨rfl, _⟩ := List.cons_prefix_cons.mp hmore
      rw [Raw.at?_append, hfront]
      exact Raw.at?_list_of_indexOf?_eq_none hindex more

end Components

namespace Lint

/-- Linting a text-keyed document with the rules of the library, whose envelope has no issues, whose
components have names that are not empty, and whose schemas can be built: the pointers of the
findings for which entries are added are addresses in the document. -/
theorem findings_address_document {document : Raw} (hdocument : document.isTextKeyed = true)
    {cs : Components} (hcs : Components.ofDocument document = .ok cs) (hnames : "" ∉ cs.names)
    (henvelope : Envelope.issues document = .ok []) {d : LoadedDocument}
    (hload : LoadedDocument.ofRaw document = .ok d) (places : SourceMap) (result : LintResult) :
    ∃ found : List Finding,
      (lintDocument RuleSet.builtin places document result).result.errors
        = result.errors ++ found.map (findingEntry result.file places)
      ∧ ∀ f ∈ found, cs.IsAddressed document d.graph f := by
  have hrendered := LoadedDocument.renderedBy_graph hdocument hcs hload
  have hchain := LoadedDocument.chain_components hdocument hcs hload
  have hwalks := LoadedDocument.findings_walks_of_reports hrendered hnames hchain
    (hrendered.builtin_reports hnames)
  have herrors := lintDocument_errors_of_reports hload hwalks places result
  rw [if_pos henvelope] at herrors
  refine ⟨_, herrors, fun f hf => ?_⟩
  obtain ⟨stop, hstop, hf⟩ := List.mem_flatMap.mp hf
  obtain ⟨i, e, es, s, lo, hi, he, hes, hs, harrival, hpointer, hnode, hrenders⟩ :=
    LoadedDocument.exists_of_mem_visits hrendered hnames hchain hstop
  have hmem := List.mem_of_getElem? he
  have hadmitted : Envelope.IsAdmitted (.dict s.entries) := by
    have hbody := Envelope.isAdmitted_of_mem_components henvelope hcs hmem
    rw [(Raw.inline?_eq_some_iff.mp hes).1] at hbody
    exact Envelope.isAdmitted_of_mem_inlineSchemas hbody hs
  have hfinding := hf
  rw [Components.findingsAt_eq hrendered hnames hnode hrenders] at hfinding
  obtain ⟨tail, target, htail, htarget, hconcerns, hword⟩ :=
    Components.exists_concerned hrendered hnames hnode hrenders hadmitted hfinding
  have hsegments : Pointer.segments f.pointer
      = cs.version.schemasPath ++ [e.1.text] ++ (s.segments ++ tail) := by
    rw [htail, hpointer, Components.segments_pointerTo]
  refine ⟨i, e, es, s, stop, he, hes, hs, harrival, hf, fun hplain => ?_, ?_⟩
  · refine ⟨target, ?_, hconcerns⟩
    rw [hsegments, Components.at?_segments hdocument hcs hmem hes hs hplain, htarget]
  · intro before kind index after hsteps hplain
    rw [hsegments]
    exact Components.exists_front hdocument hcs hmem hes hs hsteps hplain hword

theorem findings_address_document_sample : ∃ d, LoadedDocument.ofRaw sampleDocument = .ok d
    ∧ ∃ found : List Finding,
      (lintDocument RuleSet.builtin [] sampleDocument default).result.errors
        = [] ++ found.map (findingEntry (default : LintResult).file [])
      ∧ found.map Finding.pointer
        = ["#/components/schemas/Tag/example", "#/components/schemas/Pet/oneOf",
          "#/components/schemas/Pet/oneOf", "#/components/schemas/Pet/oneOf",
          "#/components/schemas/Pet/oneOf", "#/components/schemas/Pet/default/a~1b/1",
          "#/components/schemas/Pet/oneOf/enum/1"]
      ∧ ∀ f ∈ found, sampleComponents.IsAddressed sampleDocument d.graph f := by
  obtain ⟨d, hload⟩ := ofRaw_sample
  obtain ⟨found, herrors, hfound⟩ := findings_address_document (by decide +kernel)
    ofDocument_sample (by decide +kernel) issues_sample hload [] default
  have hentries : ((lintDocument RuleSet.builtin [] sampleDocument default).result.errors.map
      LintEntry.pointer) = ["#/components/schemas/Tag/example", "#/components/schemas/Pet/oneOf",
        "#/components/schemas/Pet/oneOf", "#/components/schemas/Pet/oneOf",
        "#/components/schemas/Pet/oneOf", "#/components/schemas/Pet/default/a~1b/1",
        "#/components/schemas/Pet/oneOf/enum/1"].map some := by
    decide +kernel
  have hsome : (found.map Finding.pointer).map some
      = (lintDocument RuleSet.builtin [] sampleDocument default).result.errors.map
        LintEntry.pointer := by
    rw [herrors, List.map_append, List.map_map, List.map_map]
    rfl
  refine ⟨d, hload, found, herrors, ?_, hfound⟩
  exact List.map_injective_iff.mpr (Option.some_injective _) (hsome.trans hentries)

end Lint

end ApiLint
