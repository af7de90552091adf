import ApiLint.Document.Reader
import ApiLint.Proofs.Document.Issues
import ApiLint.Proofs.Lint.Addresses
import ApiLint.Proofs.Yaml.Places

/-!
# The positions of entries

An entry has the position of a node of the document: of the node that its pointer addresses, as far
as the pointer is an address. Behind a composition on the way to a schema it is none, and then the
position is that of the list of the outermost composition. The segments of a pointer are a route in
the raw document, every route there is one in the nodes of the text, and the source map knows the
places at the ends of these.
-/

namespace ApiLint

open Walk

namespace Yaml.Node

/-- The nodes at the end of segments, of which there is one, begin at a position. -/
def BeginsAt (root : Node) (segments : List String) (p : SourcePosition) : Prop :=
  (∃ m, root.Route segments m) ∧ ∀ m, root.Route segments m → p = position m.start

/-- The position that the source map gives for segments, if a part of them leads to a value and
nothing longer does. -/
lemma beginsAt_front {root : Node} {raw : Raw} (hagrees : root.agrees raw = true)
    (hkeyed : raw.isTextKeyed = true) {front segments : List String} {target : Raw}
    (hroute : raw.Route front target) (hbegins : front <+: segments)
    (hlonger : ∀ longer, longer <+: segments → front.length < longer.length →
      raw.at? longer = none) :
    root.BeginsAt front (root.sourceMap.positionOf (Pointer.placeOf segments)) := by
  have hdistinct := nodup_spots hagrees hkeyed
  obtain ⟨m, hm, _⟩ := exists_route_of_agrees hagrees hroute
  refine ⟨⟨m, hm⟩, fun m hm => ?_⟩
  refine SourceMap.positionOf_eq (find?_sourceMap hdistinct hm) rfl hbegins ?_
  intro longer hprefix hlength
  refine find?_sourceMap_eq_none hdistinct fun m hm => ?_
  obtain ⟨other, hother⟩ := exists_route_of_route hagrees hkeyed hm
  have hnone := hlonger longer hprefix hlength
  rw [hother.at?_eq] at hnone
  cases hnone

lemma beginsAt {root : Node} {raw : Raw} (hagrees : root.agrees raw = true)
    (hkeyed : raw.isTextKeyed = true) {segments : List String} {target : Raw}
    (hroute : raw.Route segments target) :
    root.BeginsAt segments (root.sourceMap.positionOf (Pointer.placeOf segments)) :=
  beginsAt_front hagrees hkeyed hroute (List.prefix_refl _) fun _ hprefix hlength =>
    absurd hprefix.length_le (Nat.not_le_of_lt hlength)

end Yaml.Node

/-! ### Routes to what findings are about -/

namespace Components

variable {cs : Components}

/-- The path of a departure is a route. -/
lemma route_of_mem_departures {schema raw : Raw} (hraw : raw.isTextKeyed = true)
    {path : List String} (h : path ∈ cs.departures schema raw) : ∃ part, raw.Route path part := by
  induction path generalizing schema raw with
  | nil => exact ⟨raw, .here raw⟩
  | cons segment path ih =>
    cases hes : cs.governing? schema with
    | none =>
      rw [departures_eq_nil hes] at h
      cases h
    | some es =>
      rcases departures_cases hes h with
        ⟨h, _⟩ | ⟨items, i, x, rest, rfl, hx, h, hrest⟩ | ⟨members, e, rest, rfl, he, h, hrest⟩
      · cases h
      · cases h
        obtain ⟨part, hpart⟩ :=
          ih (Raw.isTextKeyed_of_mem_list hraw (List.mem_of_getElem? hx)) hrest
        exact ⟨part, .item hx hpart⟩
      · cases h
        obtain ⟨part, hpart⟩ := ih (Raw.isTextKeyed_of_mem_dict hraw he).2 hrest
        exact ⟨part, .field (Raw.field?_text_of_mem hraw he) hpart⟩

/-- From a raw schema a route leads to whatever is found about it, and the route begins with a
word. -/
lemma exists_route_of_mem_schemaFindings {es : Entries} (hkeyed : (Raw.dict es).isTextKeyed = true)
    (hadmitted : Envelope.IsAdmitted (.dict es)) {pointer : Pointer} {f : Finding}
    (hf : f ∈ cs.schemaFindings es pointer) :
    ∃ tail target, f.pointer = pointer.join tail ∧ (Raw.dict es).Route tail target
      ∧ BeginWithWord tail := by
  simp only [schemaFindings, List.mem_append] at hf
  rcases hf with (hf | hf) | hf
  · obtain ⟨_, hpointer, hlist⟩ := of_mem_compositionFindings hf
    exact ⟨_, _, hpointer, .ofField hlist, _, _, rfl, by decide⟩
  · obtain ⟨_, hpointer, hlist⟩ := of_mem_compositionFindings hf
    exact ⟨_, _, hpointer, .ofField hlist, _, _, rfl, by decide⟩
  · obtain ⟨⟨segments, raw⟩, hl, hf⟩ := List.mem_flatMap.mp hf
    obtain ⟨path, hpath, rfl⟩ := List.mem_map.mp hf
    obtain ⟨hliteral, hword⟩ := Entries.route_of_mem_rawLiterals
      (fun raw hraw => Envelope.exists_list_of_enum hadmitted hraw) hl
    obtain ⟨part, hpart⟩ :=
      route_of_mem_departures (Entries.isTextKeyed_of_mem_rawLiterals hkeyed hl) hpath
    refine ⟨segments ++ path, part, ?_, hliteral.append hpart, hword.append path⟩
    exact (Pointer.through_eq_join (Pointer.isEmpty_join ..) path).trans (Pointer.join_join ..)

variable {document : Raw}

/-- Without a composition on the way, routes from a schema in line are routes from the document. -/
lemma route_segments (hdocument : document.isTextKeyed = true) (hcs : ofDocument document = .ok cs)
    {e : Raw × Raw} (he : e ∈ cs.entries) {es : Entries} (hes : e.2.inline? = some es)
    {s : InlineSchema} (hs : s ∈ es.inlineSchemas)
    (hplain : ∀ step ∈ s.steps, step.1.isMember = false) {tail : List String} {target : Raw}
    (h : (Raw.dict s.entries).Route tail target) :
    document.Route (cs.version.schemasPath ++ [e.1.text] ++ (s.segments ++ tail)) target := by
  have hcomponent := route_component hdocument hcs he
  have hkeyed := (Raw.isTextKeyed_of_mem_dict (isTextKeyed_of_ofDocument hdocument hcs) he).2
  obtain ⟨hbody, _⟩ := Raw.inline?_eq_some_iff.mp hes
  rw [hbody] at hcomponent hkeyed
  rw [InlineSchema.segments_eq_address hplain]
  exact hcomponent.append ((Entries.route_of_mem_inlineSchemas hkeyed hs).append h)

end Components

/-! ### Entries -/

namespace Lint

/-- The entry of an issue of the envelope, with the position of the node that its pointer
addresses. -/
structure IsIssueAt (root : Yaml.Node) (i : EnvelopeIssue) (entry : LintEntry) : Prop where
  rule : entry.rule = some structureRule
  pointer : entry.pointer = some i.pointer
  position : root.BeginsAt (Pointer.segments i.pointer) entry.position

/-- The entry of a finding about a schema in line of a component. -/
structure IsFindingAt (root : Yaml.Node) (cs : Components) (e : Raw × Raw) (es : Entries)
    (s : InlineSchema) (f : Finding) (entry : LintEntry) : Prop where
  rule : entry.rule = some f.rule
  pointer : entry.pointer = some f.pointer
  /-- Without a composition on the way to the schema, the entry has the position of the node that
  the pointer addresses. -/
  plain : (∀ step ∈ s.steps, step.1.isMember = false) →
    root.BeginsAt (Pointer.segments f.pointer) entry.position
  /-- Otherwise it has the position of the list of the first composition on the way. -/
  member : ∀ before kind index after, s.steps = before ++ (.member kind, index) :: after →
    (∀ step ∈ before, step.1.isMember = false) →
    ∃ outer ∈ es.inlineSchemas, outer.steps = before ∧ ∃ members front,
      outer.entries.field? kind.keyword = some (.list members)
      ∧ front = cs.version.schemasPath ++ [e.1.text] ++ (outer.segments ++ [kind.keyword])
      ∧ (∃ tag items start, root.Route front (.sequence tag items start))
      ∧ root.BeginsAt front entry.position

/-- An entry that an issue of the envelope or a finding of a walk is told by. -/
inductive IsPlaced (root : Yaml.Node) (document : Raw) (entry : LintEntry) : Prop
  | issue {is : List EnvelopeIssue} {i : EnvelopeIssue}
      (examined : Envelope.issues document = .ok is) (mem : i ∈ is)
      (placed : IsIssueAt root i entry)
  | finding {cs : Components} {d : LoadedDocument} {place : Nat} {e : Raw × Raw} {es : Entries}
      {s : InlineSchema} {stop : Stop} {f : Finding}
      (read : Components.ofDocument document = .ok cs)
      (loaded : LoadedDocument.ofRaw document = .ok d) (component : cs.entries[place]? = some e)
      (body : e.2.inline? = some es) (mem : s ∈ es.inlineSchemas)
      (arrival : arrival? d.graph (cs.pointerTo e.1.text) (.node place) s.path = some stop)
      (found : f ∈ findingsAt RuleSet.builtin (Examination.ofBuiltin d.graph) stop)
      (placed : IsFindingAt root cs e es s f entry)

variable {root : Yaml.Node} {document : Raw}

lemma isIssueAt_of_mem_issues (hagrees : root.agrees document = true)
    (hkeyed : document.isTextKeyed = true) {is : List EnvelopeIssue}
    (his : Envelope.issues document = .ok is) {i : EnvelopeIssue} (hi : i ∈ is) (file : FilePath) :
    IsIssueAt root i (entryAt file root.sourceMap i.message structureRule i.pointer) := by
  obtain ⟨target, hroute⟩ := Envelope.exists_route_of_mem_issues hkeyed his hi
  refine ⟨rfl, rfl, ?_⟩
  change root.BeginsAt _ (root.sourceMap.positionOf i.pointer.place)
  rw [EnvelopeIssue.pointer, Pointer.segments_root_join, Pointer.place_root_join]
  exact Yaml.Node.beginsAt hagrees hkeyed hroute

/-- The entry of a finding, given where the schema stands that it is about. -/
lemma isFindingAt_of_mem_schemaFindings (hagrees : root.agrees document = true)
    (hkeyed : document.isTextKeyed = true) (henvelope : Envelope.issues document = .ok [])
    {cs : Components} (hcs : Components.ofDocument document = .ok cs) {e : Raw × Raw}
    (he : e ∈ cs.entries) {es : Entries} (hes : e.2.inline? = some es) {s : InlineSchema}
    (hs : s ∈ es.inlineSchemas) (hentries : (Raw.dict s.entries).isTextKeyed = true) {f : Finding}
    (hf : f ∈ cs.schemaFindings s.entries ((cs.pointerTo e.1.text).join s.segments))
    (file : FilePath) : IsFindingAt root cs e es s f (findingEntry file root.sourceMap f) := by
  have hadmitted : Envelope.IsAdmitted (.dict s.entries) := by
    have hbody := Envelope.isAdmitted_of_mem_components henvelope hcs he
    rw [(Raw.inline?_eq_some_iff.mp hes).1] at hbody
    exact Envelope.isAdmitted_of_mem_inlineSchemas hbody hs
  obtain ⟨tail, target, hpointer, hroute, hword⟩ :=
    Components.exists_route_of_mem_schemaFindings hentries hadmitted hf
  have hsegments : Pointer.segments f.pointer
      = cs.version.schemasPath ++ [e.1.text] ++ (s.segments ++ tail) := by
    rw [hpointer, Components.segments_pointerTo]
  have hposition : (findingEntry file root.sourceMap f).position = root.sourceMap.positionOf
      (Pointer.placeOf (cs.version.schemasPath ++ [e.1.text] ++ (s.segments ++ tail))) := by
    rw [← Pointer.place_root_join, ← Pointer.join_join, ← Components.pointerTo_eq,
      ← Pointer.join_join, ← hpointer]
    rfl
  refine ⟨rfl, rfl, fun hplain => ?_, ?_⟩
  · rw [hsegments, hposition]
    exact Yaml.Node.beginsAt hagrees hkeyed
      (Components.route_segments hkeyed hcs he hes hs hplain hroute)
  · intro before kind index after hsteps hplain
    -- With a composition on the way the pointer leads nowhere behind the list of the first one, and
    -- so the position is that of the list.
    obtain ⟨outer, houter, rfl, members, front, hmembers, rfl, hbegins, _, hlonger⟩ :=
      Components.exists_front hkeyed hcs he hes hs hsteps hplain hword
    have hfront := Components.route_segments hkeyed hcs he hes houter hplain (.ofField hmembers)
    refine ⟨outer, houter, rfl, members, _, hmembers, rfl, ?_, ?_⟩
    · obtain ⟨m, hm, hlist⟩ := Yaml.Node.exists_route_of_agrees hagrees hfront
      cases m with
      | sequence tag items start => exact ⟨tag, items, start, hm⟩
      | _ => cases hlist
    · rw [hposition]
      exact Yaml.Node.beginsAt_front hagrees hkeyed hfront hbegins hlonger

lemma sourceMap_of_ofText {text : String} {source : SourceDocument}
    (h : SourceDocument.ofText text = .ok source) (hroot : Yaml.root text = .ok (some root)) :
    source.sourceMap = root.sourceMap := by
  have hread : (Yaml.sourceMap text).mapError ReadError.scalar = .ok source.sourceMap := by
    obtain ⟨value, _, h⟩ := bind_eq_ok_iff.mp h
    dsimp only at h
    split at h
    all_goals
      obtain ⟨es, hes, h⟩ := bind_eq_ok_iff.mp h
      obtain ⟨sourceMap, hread, h⟩ := bind_eq_ok_iff.mp h
      cases h
      exact hread
  rw [Yaml.sourceMap, hroot] at hread
  exact (Except.ok.inj hread).symm

/-- Linting a document that was read from a text, with the rules of the library: if the nodes of the
text agree with the value, all keys are texts that are distinct in their mappings, and the names of
the components are not empty, then every entry with a pointer has the position of a node, and of the
right one. -/
theorem errors_carry_positions {text : String} {source : SourceDocument}
    (hsource : SourceDocument.ofText text = .ok source) (hroot : Yaml.root text = .ok (some root))
    (hagrees : root.agrees source.raw = true) (hkeyed : source.raw.isTextKeyed = true)
    (hnames : ∀ cs, Components.ofDocument source.raw = .ok cs → "" ∉ cs.names)
    (result : LintResult) :
    ∃ added : List LintEntry,
      (lintDocument RuleSet.builtin source.sourceMap source.raw result).result.errors
        = result.errors ++ added
      ∧ ∀ entry ∈ added, entry.pointer.isSome = true → IsPlaced root source.raw entry := by
  rw [sourceMap_of_ofText hsource hroot]
  by_cases henvelope : Envelope.issues source.raw = .ok []
  · cases hload : LoadedDocument.ofRaw source.raw with
    | error error =>
      -- what is reported about an error has no pointer
      rw [lintDocument_of_error henvelope hload]
      split
      · refine ⟨_, rfl, fun entry hentry hpointer => ?_⟩
        rw [List.mem_singleton.mp hentry] at hpointer
        cases hpointer
      · exact ⟨[], (List.append_nil _).symm, fun _ hentry => absurd hentry List.not_mem_nil⟩
    | ok d =>
      obtain ⟨cs, hcs, -⟩ := LoadedDocument.ofRaw_eq_ok_iff.mp hload
      have hnames := hnames cs hcs
      have hrendered := LoadedDocument.renderedBy_graph hkeyed hcs hload
      have hchain := LoadedDocument.chain_components hkeyed hcs hload
      have hwalks := LoadedDocument.findings_walks_of_reports hrendered hnames hchain
        (hrendered.builtin_reports hnames)
      have herrors := lintDocument_errors_of_reports hload hwalks root.sourceMap result
      rw [if_pos henvelope] at herrors
      refine ⟨_, herrors, fun entry hentry _ => ?_⟩
      obtain ⟨f, hf, rfl⟩ := List.mem_map.mp hentry
      obtain ⟨stop, hstop, hf⟩ := List.mem_flatMap.mp hf
      obtain ⟨i, e, es, s, lo, hi, he, hes, hs, harrival, hpointer, hnode, hrenders⟩ :=
        LoadedDocument.exists_of_mem_visits hrendered hnames hchain hstop
      have hfinding := hf
      rw [Components.findingsAt_eq hrendered hnames hnode hrenders, hpointer] at hfinding
      exact .finding hcs hload he hes hs harrival hf (isFindingAt_of_mem_schemaFindings hagrees
        hkeyed henvelope hcs (List.mem_of_getElem? he) hes hs hrenders.keyed hfinding result.file)
  · cases hissues : Envelope.issues source.raw with
    | error e =>
      rw [lintDocument_of_unshown hissues]
      exact ⟨[], (List.append_nil _).symm, fun _ hentry => absurd hentry List.not_mem_nil⟩
    | ok is =>
      rw [lintDocument_of_issues hissues fun hnil => henvelope (hnil ▸ hissues)]
      refine ⟨_, rfl, fun entry hentry _ => ?_⟩
      obtain ⟨j, hj, rfl⟩ := List.mem_map.mp hentry
      exact .issue hissues hj (isIssueAt_of_mem_issues hagrees hkeyed hissues hj result.file)

/-- A text with a mismatch below a composition and one in a component. -/
def textWithMismatches : String :=
  "openapi: 3.0.0\ncomponents:\n  schemas:\n    Pet:\n      oneOf:\n"
    ++ "      - {type: boolean, default: 5}\n    Tag: {type: string, default: 7}\n"

theorem errors_carry_positions_of_mismatches : ∃ source root,
    SourceDocument.ofText textWithMismatches = .ok source
    ∧ Yaml.root textWithMismatches = .ok (some root)
    ∧ ∃ added : List LintEntry,
      (lintDocument RuleSet.builtin source.sourceMap source.raw default).result.errors = [] ++ added
      ∧ added.map (fun entry => (entry.pointer, entry.position))
        = [(some "#/components/schemas/Pet/oneOf/default", ⟨some 6, some 7⟩),
          (some "#/components/schemas/Tag/default", ⟨some 7, some 34⟩)]
      ∧ ∀ entry ∈ added, entry.pointer.isSome = true → IsPlaced root source.raw entry := by
  have hchecks : ((SourceDocument.ofText textWithMismatches).toOption.any fun source =>
      (Yaml.root textWithMismatches).toOption.any fun root? => root?.any fun root =>
        root.agrees source.raw && source.raw.isTextKeyed
          && ((Components.ofDocument source.raw).toOption.all fun cs => decide ("" ∉ cs.names))
          && (lintDocument RuleSet.builtin source.sourceMap source.raw default).result.errors.map
              (fun entry => (entry.pointer, entry.position))
            == [(some "#/components/schemas/Pet/oneOf/default", ⟨some 6, some 7⟩),
              (some "#/components/schemas/Tag/default", ⟨some 7, some 34⟩)]) = true := by
    decide +kernel
  obtain ⟨source, hsource, hchecks⟩ := exists_ok_of_any hchecks
  obtain ⟨root?, hroot, hchecks⟩ := exists_ok_of_any hchecks
  obtain ⟨root, rfl, hroot?⟩ := (Option.any_eq_true ..).mp hchecks
  simp only [Bool.and_eq_true, beq_iff_eq] at hroot?
  obtain ⟨⟨⟨hagrees, hkeyed⟩, hnames⟩, hentries⟩ := hroot?
  obtain ⟨added, herrors, hadded⟩ := errors_carry_positions hsource hroot hagrees hkeyed
    (fun cs hcs => by simpa [hcs, Except.toOption] using hnames) default
  refine ⟨source, root, hsource, hroot, added, herrors, ?_, hadded⟩
  rw [← hentries, herrors]
  rfl

end Lint

end ApiLint
