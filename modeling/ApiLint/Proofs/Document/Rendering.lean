import ApiLint.Proofs.Document.Tiers

/-!
# The graph renders the document

Reading and laying put together. A node renders a raw schema if it declares what the raw schema
writes and its children stand for the raw schemas below: a schema in line for a node of its own,
which renders it, and a reference for the node of a component. The node of a component renders the
shape of the component, and so a child is governed by the raw schema that governs literals in the
document.
-/

namespace ApiLint

lemma SchemaNode.name?_of_reference {σ : Type} {node : SchemaNode σ} {name : String}
    (h : node.reference = some name) (hname : name ≠ "") : node.name? = some name := by
  simp [SchemaNode.name?, h, hname]

namespace Components

variable (cs : Components) (g : Graph)

/-- A child that stands for a raw schema; what is in line in this is laid from one place up to
another. -/
def Stands (lo hi : Nat) (raw : Raw) (child : Child) : Prop :=
  ∃ schema, cs.Builds raw schema ∧ Schema.Laid cs.names g lo hi schema child

/-- A node that renders a raw schema; what is in line below this is laid from one place up to
another. -/
structure Renders (lo hi : Nat) (es : Entries) (node : Node) : Prop where
  keyed : (Raw.dict es).isTextKeyed = true
  plain : es.field? "$ref" = none
  declares : cs.Declares es node
  parts : Chain (Chain fun lo hi => SchemaNode.OnChildren (cs.Stands g lo hi)) lo hi
    es.outline.parts node.parts

/-- The node of a component: it carries the name of the component and renders its shape. -/
def RendersComponent (lo hi : Nat) (e : Raw × Raw) (place : Nat) : Prop :=
  ∃ (target : String) (shape : Entries) (node : Node),
    cs.aliasTarget e.1.text e.2 = .ok (target, .dict shape)
    ∧ g.nodes[place]? = some node ∧ node.reference = some e.1.text ∧ cs.Renders g lo hi shape node

/-- A graph that renders the components of a document, in the first places and in order of
declaration. These own what is in line in them. -/
structure RenderedBy : Prop where
  keyed : (Raw.dict cs.entries).isTextKeyed = true
  tiered : ∃ owner, g.IsTiered cs.entries.length owner
  components : Chain (cs.RendersComponent g) cs.entries.length g.nodes.size cs.entries
    (List.range cs.entries.length)

/-- The component that a raw schema refers to. -/
def referredName? (raw : Raw) : Option String :=
  match reference? raw with
  | some (.str text) => cs.referenceName? text
  | _ => none

/-- A component of a loaded document with its place: whence it comes, and what its node renders. -/
structure Places (d : LoadedDocument) (lo hi : Nat) (e : Raw × Raw)
    (c : (String × Component) × Nat) : Prop where
  name : c.1.1 = e.1.text
  pointer : c.1.2.pointer = cs.pointerTo e.1.text
  isAlias : (Fields.find? d.aliases c.1.1).isSome ↔ (reference? e.2).isSome
  renders : cs.RendersComponent d.graph lo hi e c.2

variable {cs g}

/-! ### Nodes -/

lemma renders_of_laidNode {es : Entries} {node : SchemaNode Schema} {lo hi place : Nat}
    (hes : (Raw.dict es).isTextKeyed = true) (hplain : es.field? "$ref" = none)
    (hdeclares : cs.Declares es node) (hsimilar : SchemaNode.Similar cs.Builds es.outline node)
    (h : Schema.LaidNode cs.names g lo hi node place) :
    ∃ node', g.nodes[place]? = some node' ∧ node'.reference = node.reference
      ∧ cs.Renders g lo hi es node' := by
  obtain ⟨node', hnode, hreference, hdeclares', hchain⟩ := Schema.exists_of_laidNode hdeclares h
  refine ⟨node', hnode, hreference, hes, hplain, hdeclares', (Chain.comp hsimilar hchain).imp ?_⟩
  rintro _ _ _ _ ⟨_, hbuilds, hlaid⟩
  refine (Chain.comp hbuilds hlaid).imp ?_
  rintro _ _ _ _ ⟨y, ⟨hedge, hbuild⟩, hedge', hlay⟩
  exact ⟨hedge.trans hedge', y.2, hbuild, hlay⟩

lemma Renders.similar {lo hi : Nat} {es : Entries} {node : Node} (h : cs.Renders g lo hi es node) :
    SchemaNode.Similar (fun raw child => ∃ lo hi, cs.Stands g lo hi raw child) es.outline node := by
  refine h.parts.forall₂.imp ?_
  rintro _ _ ⟨_, _, hpart⟩
  refine hpart.forall₂.imp ?_
  rintro _ _ ⟨_, _, hedge, hstands⟩
  exact ⟨hedge, _, _, hstands⟩

lemma Renders.children {lo hi : Nat} {es : Entries} {node : Node} (h : cs.Renders g lo hi es node) :
    Chain (fun lo hi => SchemaNode.OnChildren (cs.Stands g lo hi)) lo hi es.outline.children
      node.children := by
  rw [SchemaNode.children_eq_flatten_parts, SchemaNode.children_eq_flatten_parts]
  exact h.parts.flatten

/-! ### Children -/

/-- A schema in line stands for itself, behind what is below it. -/
lemma stands_inline {lo hi : Nat} {es : Entries} {child : Child}
    (hes : (Raw.dict es).isTextKeyed = true) (hreference : es.field? "$ref" = none)
    (h : cs.Stands g lo hi (.dict es) child) :
    lo < hi ∧ child = .node (hi - 1) ∧ ∃ node, g.nodes[hi - 1]? = some node
      ∧ node.reference = none ∧ cs.Renders g lo (hi - 1) es node := by
  obtain ⟨schema, hbuilds, hlaid⟩ := h
  obtain ⟨node, rfl, hnone, hdeclares, hsimilar⟩ := builds_inline hes hreference hbuilds
  obtain ⟨hlt, hchild, hnode⟩ := Schema.laid_inline hlaid
  obtain ⟨node', hfound, hname, hrenders⟩ :=
    renders_of_laidNode hes hreference hdeclares hsimilar hnode
  exact ⟨hlt, hchild, node', hfound, hname.trans hnone, hrenders⟩

/-- A reference stands for the component that it names. -/
lemma stands_reference {lo hi : Nat} {es : Entries} {reference : Raw} {child : Child}
    (hreference : es.field? "$ref" = some reference) (h : cs.Stands g lo hi (.dict es) child) :
    lo = hi ∧ ∃ text name, reference = .str text ∧ cs.referenceName? text = some name
      ∧ name ∈ cs.names ∧ child = .node (cs.names.idxOf name) := by
  obtain ⟨schema, hbuilds, hlaid⟩ := h
  obtain ⟨text, name, rfl, hname, hmem, rfl⟩ := builds_reference hreference hbuilds
  obtain ⟨rfl, rfl⟩ := Schema.laid_component hlaid
  exact ⟨rfl, text, name, rfl, hname, hmem, rfl⟩

/-- Only mappings have children that stand for them. -/
lemma exists_dict_of_stands {lo hi : Nat} {raw : Raw} {child : Child}
    (h : cs.Stands g lo hi raw child) : ∃ es, raw = .dict es := by
  obtain ⟨schema, hbuilds, _⟩ := h
  exact exists_dict_of_builds hbuilds

lemma le_of_stands {lo hi : Nat} {raw : Raw} {child : Child} (h : cs.Stands g lo hi raw child) :
    lo ≤ hi := by
  obtain ⟨_, _, hlaid⟩ := h
  exact hlaid.le

/-! ### Components -/

/-- A component stands in the place of its name. -/
lemma RenderedBy.component (h : cs.RenderedBy g) {name : String} (hname : name ∈ cs.names) :
    ∃ body lo hi, Entries.field? cs.entries name = some body
      ∧ cs.RendersComponent g lo hi (.str name, body) (cs.names.idxOf name) := by
  have hplace : cs.names[cs.names.idxOf name]? = some name := List.getElem?_idxOf hname
  obtain ⟨e, he, htext⟩ : ∃ e, cs.entries[cs.names.idxOf name]? = some e ∧ e.1.text = name := by
    rw [names, List.getElem?_map, Option.map_eq_some_iff] at hplace
    exact hplace
  obtain ⟨place, lo, hi, hplace', target, shape, node, htarget, hnode, hreference, hrenders⟩ :=
    h.components.getElem? he
  obtain ⟨_, rfl⟩ := List.getElem?_eq_some_iff.mp hplace'
  rw [List.getElem_range] at hnode
  refine ⟨e.2, lo, hi, ?_, target, shape, node, ?_, hnode, ?_, hrenders⟩
  · rw [← htext]
    exact Raw.field?_text_of_mem h.keyed (List.mem_of_getElem? he)
  · rwa [Raw.text_str, ← htext]
  · rwa [Raw.text_str, ← htext]

/-- A walk from a component can name whatever it comes back to, if no component has the empty
name. -/
lemma RenderedBy.namesRepeats (h : cs.RenderedBy g) (hnames : "" ∉ cs.names) {place : Nat}
    (hplace : place < cs.entries.length) : g.NamesRepeats [] (.node place) := by
  obtain ⟨owner, htiered⟩ := h.tiered
  refine htiered.namesRepeats (fun node hnode hempty => absurd ?_ hnames) hplace
  obtain ⟨other, hother⟩ := Array.mem_iff_getElem?.mp hnode
  have hlt : other < cs.entries.length :=
    not_le.mp fun hle => by simp [(htiered.reference hother).mpr hle] at hempty
  obtain ⟨other', _, _, hother', _, _, node', _, hnode', hreference, _⟩ :=
    h.components.getElem? (List.getElem?_eq_getElem hlt)
  obtain ⟨_, rfl⟩ := List.getElem?_eq_some_iff.mp hother'
  rw [List.getElem_range, hother] at hnode'
  cases hnode'
  rw [hempty, Option.some.injEq] at hreference
  rw [hreference]
  exact List.mem_map_of_mem (List.getElem_mem hlt)

/-- Whatever stands for a raw schema renders the raw schema that governs the literals of it, and
carries the name of the component that this refers to. -/
lemma RenderedBy.governing (h : cs.RenderedBy g) {lo hi : Nat} {raw : Raw} {child : Child}
    (hraw : raw.isTextKeyed = true) (hstands : cs.Stands g lo hi raw child) :
    ∃ place node es lo' hi', child = .node place ∧ g.nodes[place]? = some node
      ∧ node.reference = cs.referredName? raw ∧ cs.governing? raw = some es
      ∧ cs.Renders g lo' hi' es node := by
  obtain ⟨es, rfl⟩ := exists_dict_of_stands hstands
  cases hreference : Entries.field? es "$ref" with
  | none =>
    obtain ⟨_, rfl, node, hnode, hname, hrenders⟩ := stands_inline hraw hreference hstands
    exact ⟨_, node, es, _, _, rfl, hnode, by simp [hname, referredName?, reference?, hreference],
      governing?_inline hreference, hrenders⟩
  | some reference =>
    obtain ⟨_, text, name, rfl, hname, hmem, rfl⟩ := stands_reference hreference hstands
    obtain ⟨body, lo', hi', hbody, target, shape, node, htarget, hnode, hcarried, hrenders⟩ :=
      h.component hmem
    exact ⟨_, node, shape, lo', hi', rfl, hnode,
      by simpa [referredName?, reference?, hreference, hname] using hcarried,
      governing?_reference hreference hname hbody htarget, hrenders⟩

lemma mem_names_of_referredName? {lo hi : Nat} {raw : Raw} {child : Child} {name : String}
    (hstands : cs.Stands g lo hi raw child) (h : cs.referredName? raw = some name) :
    name ∈ cs.names := by
  obtain ⟨es, rfl⟩ := exists_dict_of_stands hstands
  cases hreference : Entries.field? es "$ref" with
  | none => simp [referredName?, reference?, hreference] at h
  | some reference =>
    obtain ⟨_, text, name', rfl, hname, hmem, _⟩ := stands_reference hreference hstands
    have heq : name' = name := by simpa [referredName?, reference?, hreference, hname] using h
    exact heq ▸ hmem

end Components

namespace LoadedDocument

variable {document : Raw} {d : LoadedDocument} {cs : Components}

lemma names_eq (h : List.Forall₂ cs.Enters cs.entries d.components) : d.names = cs.names :=
  Components.names_of_forall₂ (R := fun _ _ => True) (h.imp fun _ _ he => ⟨he.name.symm, trivial⟩)

/-- The graph of a loaded document renders its components. -/
lemma renderedBy_graph (hdocument : document.isTextKeyed = true)
    (hcs : Components.ofDocument document = .ok cs) (h : ofRaw document = .ok d) :
    cs.RenderedBy d.graph := by
  have henters := forall₂_enters hdocument hcs h
  have hkeyed := Components.isTextKeyed_of_ofDocument hdocument hcs
  have hlength : d.components.length = cs.entries.length := henters.length_eq.symm
  have hchain := chain_layComponents (g := d.graph) rfl (by simp)
  rw [Array.size_replicate, hlength, names_eq henters, ← List.range_eq_range'] at hchain
  refine ⟨hkeyed, hlength ▸ exists_isTiered h, (Chain.comp henters hchain).imp ?_⟩
  rintro lo hi e i ⟨c, he, hnode⟩
  obtain ⟨target, shape, htarget, hshape, hplain, hdeclares, hsimilar⟩ := he.shape
  obtain ⟨node, hfound, hreference, hrenders⟩ :=
    Components.renders_of_laidNode hshape hplain hdeclares hsimilar hnode
  exact ⟨target, shape, node, htarget, hfound, hreference.trans he.reference, hrenders⟩

/-- The components of a loaded document, in order of declaration, with their places. -/
lemma chain_components (hdocument : document.isTextKeyed = true)
    (hcs : Components.ofDocument document = .ok cs) (h : ofRaw document = .ok d) :
    Chain (cs.Places d) cs.entries.length d.graph.nodes.size cs.entries d.components.zipIdx := by
  have henters := forall₂_enters hdocument hcs h
  have hentries := (List.forall₂_and_left _ _).mpr
    ⟨fun e he => isSome_find?_aliases hdocument hcs h he, henters⟩
  have hchain := (renderedBy_graph hdocument hcs h).components.zip hentries
  rw [List.zipIdx_eq_zip_range', ← List.range_eq_range', ← henters.length_eq]
  refine hchain.imp ?_
  rintro lo hi e ⟨c, place⟩ ⟨⟨halias, henter⟩, hrenders⟩
  exact ⟨henter.name, henter.pointer, by rw [henter.name]; exact halias, hrenders⟩

end LoadedDocument

end ApiLint
