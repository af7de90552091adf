import ApiLint.Proofs.Document.Redirecting
import ApiLint.Proofs.Matching.Echoes

/-!
# The walk of a component

A linter walks each component that is no alias on its own. The walks in order are those of the
components in order of declaration, and what the walk of a component comes to can be said on the
body of the component. So the walks of components that correspond find the same, up to the pointers
to the components and the names of members.
-/

namespace ApiLint

namespace LoadedDocument

/-- The walk that a linter performs for a component; none for an alias. -/
def walkOf (rules : RuleSet) (d : LoadedDocument) (name : String) : Option Walk.Outcome :=
  if (Fields.find? d.aliases name).isSome then none
  else (Fields.find? d.components name).map fun component =>
    (Walker.mk rules component.pointer true).walk d.graph (.node (d.placeOf name))

variable {document : Raw} {d : LoadedDocument} {cs : Components}

lemma placeOf_eq (hnames : d.names.Nodup) {c : (String × Component) × Nat}
    (hc : c ∈ d.components.zipIdx) : d.placeOf c.1.1 = c.2 := by
  have hname : d.names[c.2]? = some c.1.1 := by
    rw [names, Fields.names, List.getElem?_map, List.mem_zipIdx_iff_getElem?.mp hc]
    rfl
  obtain ⟨hlt, heq⟩ := List.getElem?_eq_some_iff.mp hname
  rw [placeOf, ← heq, List.Nodup.idxOf_getElem hnames]

/-- The walks of a linter are those of the components, in order of declaration. -/
lemma walks_eq_filterMap (hnames : d.names.Nodup) (rules : RuleSet) :
    d.walks rules = d.names.filterMap (d.walkOf rules) := by
  have hcomponents : d.names = d.components.zipIdx.map fun c => c.1.1 := by
    rw [names, Fields.names]
    conv_lhs => rw [← List.zipIdx_map_fst 0 d.components, List.map_map]
    rfl
  rw [hcomponents, List.filterMap_map, walks, walksFrom]
  refine List.filterMap_congr fun c hc => ?_
  obtain ⟨⟨name, component⟩, place⟩ := c
  have hfind : Fields.find? d.components name = some component :=
    Fields.find?_of_mem hnames (List.fst_mem_of_mem_zipIdx hc)
  have hplace : d.placeOf name = place := placeOf_eq hnames hc
  simp only [walkOf, Function.comp_apply, hfind, Option.map_some, hplace]

lemma mem_walks_of_walkOf (hnames : d.names.Nodup) {rules : RuleSet} {name : String}
    (hname : name ∈ d.names) {w : Walk.Outcome} (h : d.walkOf rules name = some w) :
    w ∈ d.walks rules := by
  rw [walks_eq_filterMap hnames]
  exact List.mem_filterMap.mpr ⟨name, hname, h⟩

lemma names_of_ofRaw (hdocument : document.isTextKeyed = true)
    (hcs : Components.ofDocument document = .ok cs) (h : ofRaw document = .ok d) :
    d.names = cs.names :=
  names_eq (forall₂_enters hdocument hcs h)

lemma nodup_names_of_ofRaw (hdocument : document.isTextKeyed = true)
    (hcs : Components.ofDocument document = .ok cs) (h : ofRaw document = .ok d) :
    d.names.Nodup := by
  rw [names_of_ofRaw hdocument hcs h]
  exact Components.nodup_names (Components.isTextKeyed_of_ofDocument hdocument hcs)

/-- The walk of a component that is no alias, with the rules of the library. -/
lemma findings_walkOf (hdocument : document.isTextKeyed = true)
    (hcs : Components.ofDocument document = .ok cs) (h : ofRaw document = .ok d)
    (hnames : "" ∉ cs.names) {e : Raw × Raw} (he : e ∈ cs.entries) {es : Entries}
    (hinline : e.2.inline? = some es) :
    ∃ w, d.walkOf RuleSet.builtin e.1.text = some w
      ∧ w.findings = .ok (cs.inlineFindings es (cs.pointerTo e.1.text)) := by
  have hplain : Components.reference? e.2 = none := by
    obtain ⟨heq, hfield⟩ := Raw.inline?_eq_some_iff.mp hinline
    rw [heq, Components.reference?, hfield]
  obtain ⟨c, hc, lo, hi, hplaces⟩ :=
    exists_of_forall₂_of_mem_left (chain_components hdocument hcs h).forall₂ he
  obtain ⟨es', hinline', hfindings⟩ := Components.findings_walk_of_places
    (renderedBy_graph hdocument hcs h) hnames he hplaces hplain
  rw [hinline] at hinline'
  cases hinline'
  have hnodup := nodup_names_of_ofRaw hdocument hcs h
  have halias : ¬(Fields.find? d.aliases e.1.text).isSome := by
    rw [← hplaces.name, hplaces.isAlias, hplain]
    simp
  have hfind : Fields.find? d.components c.1.1 = some c.1.2 :=
    Fields.find?_of_mem hnodup (List.fst_mem_of_mem_zipIdx hc)
  refine ⟨_, ?_, hfindings⟩
  rw [walkOf, if_neg halias, ← hplaces.name, hfind, placeOf_eq hnodup hc]
  rfl

variable {name : String}

/-- The components that are no aliases are those that are declared with a schema in line. -/
lemma find?_aliases_eq_none_iff (hdocument : document.isTextKeyed = true)
    (hcs : Components.ofDocument document = .ok cs) (h : ofRaw document = .ok d)
    (hname : name ∈ cs.names) :
    Fields.find? d.aliases name = none
      ↔ ∃ es : Entries, Entries.field? cs.entries name = some (.dict es)
        ∧ es.field? "$ref" = none := by
  rw [Option.eq_none_iff_forall_ne_some]
  constructor
  · intro halias
    obtain ⟨target, es, hends, _⟩ := exists_shape hdocument hcs h hname
    have htarget : target = name := by
      by_contra hne
      exact halias target ((find?_aliases_eq_some_iff hdocument hcs h).mpr ⟨hne, _, hends⟩)
    subst htarget
    obtain ⟨_, hends⟩ := hends
    exact ⟨es, hends.target_found⟩
  · rintro ⟨es, hbody, hplain⟩ target halias
    obtain ⟨hne, _, hends⟩ := (find?_aliases_eq_some_iff hdocument hcs h).mp halias
    exact hne ((hends.target_eq_iff hbody).mpr hplain)

/-- The walk of a component that is declared with a schema in line. -/
lemma exists_walkOf (hdocument : document.isTextKeyed = true)
    (hcs : Components.ofDocument document = .ok cs) (h : ofRaw document = .ok d)
    (hnames : "" ∉ cs.names) {es : Entries}
    (hbody : Entries.field? cs.entries name = some (.dict es)) (hplain : es.field? "$ref" = none) :
    ∃ w ∈ d.walks RuleSet.builtin, d.walkOf RuleSet.builtin name = some w
      ∧ w.findings = .ok (cs.inlineFindings es (cs.pointerTo name)) := by
  have hinline : (Raw.dict es).inline? = some es := Raw.inline?_eq_some_iff.mpr ⟨rfl, hplain⟩
  obtain ⟨w, hwalk, hfindings⟩ :=
    findings_walkOf hdocument hcs h hnames (Entries.mem_of_field? hbody) hinline
  have hname : name ∈ d.names := by
    rw [names_of_ofRaw hdocument hcs h]
    exact Components.mem_names_of_field? hbody
  exact ⟨w, mem_walks_of_walkOf (nodup_names_of_ofRaw hdocument hcs h) hname hwalk, hwalk,
    hfindings⟩

/-! ### Corresponding components -/

/-- Walks that a linter performs for components of two documents, and findings that echo each
other. -/
def EchoingWalks (ρ : String → String → Prop) (cs cs' : Components) (d d' : LoadedDocument)
    (name name' : String) (w w' : Walk.Outcome) : Prop :=
  d.walkOf RuleSet.builtin name = some w ∧ d'.walkOf RuleSet.builtin name' = some w'
    ∧ ∃ fs fs', w.findings = .ok fs ∧ w'.findings = .ok fs'
      ∧ List.Forall₂ (Finding.Echoes ρ (cs.pointerTo name) (cs'.pointerTo name')) fs fs'

/-- The walks of corresponding components that are no aliases. -/
lemma exists_echoingWalks {document' : Raw} {d' : LoadedDocument} {cs' : Components}
    {ρ : String → String → Prop} {E : Raw → Raw → Prop} {name' : String}
    (hdocument : document.isTextKeyed = true) (hdocument' : document'.isTextKeyed = true)
    (hcs : Components.ofDocument document = .ok cs)
    (hcs' : Components.ofDocument document' = .ok cs') (h : ofRaw document = .ok d)
    (h' : ofRaw document' = .ok d') (hnames : "" ∉ cs.names) (hnames' : "" ∉ cs'.names)
    (hcorresponds : cs.Corresponds cs' ρ E) (hname : ρ name name')
    (halias : Fields.find? d.aliases name = none)
    (halias' : Fields.find? d'.aliases name' = none) :
    ∃ w ∈ d.walks RuleSet.builtin, ∃ w' ∈ d'.walks RuleSet.builtin,
      EchoingWalks ρ cs cs' d d' name name' w w' := by
  obtain ⟨target, target', shape, shape', hends, hends', hshapes⟩ := hcorresponds.ends hname
  obtain ⟨es, hbody, hplain⟩ :=
    (find?_aliases_eq_none_iff hdocument hcs h hends.mem_names).mp halias
  obtain ⟨es', hbody', hplain'⟩ :=
    (find?_aliases_eq_none_iff hdocument' hcs' h' hends'.mem_names).mp halias'
  obtain ⟨-, heq⟩ := hends.unique ⟨0, .stop hbody hplain⟩
  obtain ⟨-, heq'⟩ := hends'.unique ⟨0, .stop hbody' hplain'⟩
  cases heq
  cases heq'
  obtain ⟨w, hw, hwalk, hfindings⟩ := exists_walkOf hdocument hcs h hnames hbody hplain
  obtain ⟨w', hw', hwalk', hfindings'⟩ := exists_walkOf hdocument' hcs' h' hnames' hbody' hplain'
  exact ⟨w, hw, w', hw', hwalk, hwalk', _, _, hfindings, hfindings',
    hcorresponds.echoes_inlineFindings hshapes hplain _ _⟩

end LoadedDocument

end ApiLint
