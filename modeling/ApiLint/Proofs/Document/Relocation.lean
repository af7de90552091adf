import ApiLint.Proofs.Document.Renaming

/-!
# Components in another place

The mapping that holds the components of a document may stand elsewhere, as it does in a document of
another family, if the references to it follow suit. Each reference then leads to the component that
it led to before, so the document loads as before: the components have the same nodes and the same
aliases, and only the pointers to them tell the difference.
-/

namespace ApiLint

namespace Raw

/-- A reference to below one pointer, put below another. Anything else stays as it is. -/
def relocate (base base' : Pointer) (_ : List String) : Raw → Raw
  | .str text =>
    .str <| ((Components.textAfter? (base ++ "/").toList text.toList).map fun rest =>
      base' ++ "/" ++ String.ofList rest).getD text
  | raw => raw

variable {base base' : Pointer}

lemma relocate_below (path : List String) (rest : String) :
    relocate base base' path (.str (base ++ "/" ++ rest)) = .str (base' ++ "/" ++ rest) := by
  rw [relocate, String.toList_append (s := base ++ "/"), Components.textAfter?_append,
    Option.map_some, Option.getD_some, String.ofList_toList]

/-- A reference to below a pointer. -/
def IsBelow (base : Pointer) (raw : Raw) : Prop := ∃ rest, raw = .str (base ++ "/" ++ rest)

/-- Raw schemas of which the second is the first with its references, all of them to below one
pointer, put below another. -/
structure Relocated (base base' : Pointer) (raw raw' : Raw) : Prop where
  below : ∀ r ∈ raw.references .schema, r.IsBelow base
  eq : ∃ path, raw' = raw.redirect (relocate base base') path .schema

lemma Relocated.null : Relocated base base' .null .null := by
  refine ⟨?_, [], rfl⟩
  intro r hr
  cases hr

/-- The forms of a relocated schema: it is no schema, and stays as it is; or it is a reference; or
it is in line, and written alike. -/
inductive RelocatedForm (base base' : Pointer) : Raw → Raw → Prop
  | other {raw : Raw} (h : raw.isMapping = false) : RelocatedForm base base' raw raw
  | reference {es es' : Entries} (rest : String)
      (h : es.field? "$ref" = some (.str (base ++ "/" ++ rest)))
      (h' : es'.field? "$ref" = some (.str (base' ++ "/" ++ rest))) :
      RelocatedForm base base' (.dict es) (.dict es')
  | inline {es es' : Entries} (h : es.field? "$ref" = none) (h' : es'.field? "$ref" = none)
      (halike : es.Alike (Relocated base base') es') :
      RelocatedForm base base' (.dict es) (.dict es')

end Raw

/-- The references of the schemas below a schema are references of it. -/
lemma Entries.references_subset_of_mem_outline {es : Entries} :
    ∀ e ∈ es.outline.children, e.2.references .schema ⊆ Raw.referencesEntries .schema es := by
  have hlist : ∀ kind : CompositionKind, ∀ raw ∈ es.listAt kind.keyword,
      raw.references .schema ⊆ Raw.referencesEntries .schema es := by
    intro kind raw hraw
    have hunder : Role.under .schema (.str kind.keyword) = .schemaList := by cases kind <;> rfl
    have hfield := references_field_subset es kind.keyword (by cases kind <;> decide)
    rw [hunder] at hfield
    rw [Entries.listAt] at hraw
    split at hraw
    · next raws hraws =>
      rw [hraws] at hfield
      exact List.Subset.trans (Raw.references_subset_of_mem_list hraw) hfield
    · cases hraw
  refine (SchemaNode.forall_mem_children_iff (P := fun raw : Raw =>
    raw.references .schema ⊆ Raw.referencesEntries .schema es)).mpr
      ⟨?_, ?_, ?_, hlist .oneOf, hlist .anyOf, hlist .allOf⟩
  · intro p hp
    obtain ⟨e, he, rfl⟩ := List.mem_map.mp hp
    have hfield := references_field_subset es "properties" (by decide)
    rw [Entries.mappingAt] at he
    split at he
    · next fields hfields =>
      rw [hfields] at hfield
      exact List.Subset.trans (Raw.references_subset_of_mem_entries he) hfield
    · cases he
  · intro raw hraw
    simp only [Entries.outline, Option.mem_def, Option.ite_none_left_eq_some, Option.some.injEq]
      at hraw
    obtain ⟨-, rfl⟩ := hraw
    exact references_field_subset es "items" (by decide)
  · intro raw hraw
    simp only [Entries.outline, Option.mem_def, Option.ite_none_right_eq_some, Option.some.injEq]
      at hraw
    obtain ⟨-, rfl⟩ := hraw
    exact references_field_subset es "additionalProperties" (by decide)

namespace Raw.Relocated

variable {base base' : Pointer} {raw raw' : Raw}

lemma form (h : Relocated base base' raw raw') : RelocatedForm base base' raw raw' := by
  obtain ⟨hbelow, path, rfl⟩ := h
  cases hmapping : raw.isMapping with
  | false =>
    rw [Components.redirect_of_not_mapping hmapping]
    exact .other hmapping
  | true =>
    obtain ⟨es, rfl⟩ := exists_dict_of_isMapping hmapping
    rw [redirect]
    cases hreference : Entries.field? es "$ref" with
    | some reference =>
      obtain ⟨rest, rfl⟩ := hbelow reference
        (Entries.references_subset_of_field? hreference (List.mem_singleton_self _))
      refine .reference rest hreference ?_
      rw [Entries.field?_redirect_reference, hreference, Option.map_some, relocate_below]
    | none =>
      refine .inline hreference ?_ (Components.alike_redirect .null ?_ ?_ path)
      · rw [Entries.field?_redirect_reference, hreference, Option.map_none]
      · intro path
        have hfield := Entries.references_field_subset es "additionalProperties" (by decide)
        exact ⟨fun r hr => hbelow r (hfield hr), path, rfl⟩
      · intro e he path
        exact ⟨fun r hr => hbelow r (Entries.references_subset_of_mem_outline e he hr), path, rfl⟩

lemma isMapping_eq (h : Relocated base base' raw raw') : raw'.isMapping = raw.isMapping := by
  cases h.form with
  | other | reference | inline => rfl

lemma isNull_eq (h : Relocated base base' raw raw') : raw'.isNull = raw.isNull := by
  cases h.form with
  | other | reference | inline => rfl

end Raw.Relocated

/-! ### Components -/

namespace Components

/-- Raw schemas of components in one place and in another. -/
abbrev Relocated (cs cs' : Components) : Raw → Raw → Prop :=
  Raw.Relocated (container cs.version) (container cs'.version)

/-- Components that are declared under the same keys in another place, with references to there. -/
def RelocatesTo (cs cs' : Components) : Prop :=
  List.Forall₂ (fun e e' : Raw × Raw => e.1 = e'.1 ∧ cs.Relocated cs' e.2 e'.2) cs.entries
    cs'.entries

variable {cs cs' : Components} {raw raw' : Raw}

lemma relocatesTo_of_redirect {path : List String}
    (hbelow : ∀ r ∈ Raw.referencesEntries .schemaMap cs.entries, r.IsBelow (container cs.version))
    (heq : cs'.entries
      = Raw.redirectEntries (Raw.relocate (container cs.version) (container cs'.version)) path
        .schemaMap cs.entries) : cs.RelocatesTo cs' := by
  rw [RelocatesTo, heq]
  refine ((List.forall₂_and_left _ _).mpr
    ⟨fun _ he => he, Raw.forall₂_redirectEntries _ path⟩).imp ?_
  rintro e e' ⟨he, hkey, hvalue⟩
  exact ⟨hkey, fun r hr => hbelow r (Raw.references_subset_of_mem_entries he hr), hvalue⟩

lemma referenceName?_below (cs : Components) (rest : String) :
    cs.referenceName? (container cs.version ++ "/" ++ rest) = some (Pointer.unescape rest) := by
  rw [referenceName?, String.toList_append (s := container cs.version ++ "/"), textAfter?_append,
    Option.map_some, Pointer.unescape]

namespace RelocatesTo

lemma keys_eq (h : cs.RelocatesTo cs') : cs'.entries.map Prod.fst = cs.entries.map Prod.fst := by
  rw [← List.forall₂_eq_eq_eq, List.forall₂_map_left_iff, List.forall₂_map_right_iff]
  exact h.flip.imp fun _ _ he => he.1.symm

lemma names_eq (h : cs.RelocatesTo cs') : cs'.names = cs.names := by
  rw [names, names, ← List.forall₂_eq_eq_eq, List.forall₂_map_left_iff, List.forall₂_map_right_iff]
  exact h.flip.imp fun _ _ he => congrArg Raw.text he.1.symm

lemma length_eq (h : cs.RelocatesTo cs') : cs'.entries.length = cs.entries.length :=
  (List.Forall₂.length_eq h).symm

/-- The raw schemas under a name. -/
lemma rel_field? (h : cs.RelocatesTo cs') (name : String) :
    Option.Rel (cs.Relocated cs') (Entries.field? cs.entries name)
      (Entries.field? cs'.entries name) :=
  Entries.rel_field?_of_forall₂ h name

lemma relocated_field (h : cs.RelocatesTo cs') (name : String) :
    cs.Relocated cs' (Entries.field cs.entries name) (Entries.field cs'.entries name) := by
  have hrel := h.rel_field? name
  rw [Entries.field, Entries.field]
  generalize Entries.field? cs.entries name = found at hrel ⊢
  generalize Entries.field? cs'.entries name = found' at hrel ⊢
  cases hrel with
  | none => exact .null
  | some hbody => exact hbody

/-- References that differ in the place of the components lead to the same component, if to any. -/
lemma comparable_resolve (h : cs.RelocatesTo cs') (pointer pointer' : Pointer) (rest : String) :
    Comparable Eq (cs.resolve pointer (.str (container cs.version ++ "/" ++ rest)))
      (cs'.resolve pointer' (.str (container cs'.version ++ "/" ++ rest))) := by
  simp only [resolve, referenceName?_below, h.names_eq]
  split
  · exact .ok rfl
  · exact .errors _ _

/-- Chains of aliases end at the same component. -/
lemma comparable_follow (h : cs.RelocatesTo cs') (pointer pointer' : Pointer) (steps : Nat)
    (chain : List String) (hbody : cs.Relocated cs' raw raw') :
    Comparable (fun last last' => last.1 = last'.1 ∧ reference? last.2 = none
        ∧ cs.Relocated cs' last.2 last'.2)
      (cs.follow pointer steps chain raw) (cs'.follow pointer' steps chain raw') := by
  induction steps generalizing chain raw raw' with
  | zero => exact .errors _ _
  | succ steps ih =>
    cases hbody.form with
    | other hmapping =>
      have hplain := reference?_eq_none hmapping
      rw [follow, follow, hplain]
      exact .ok ⟨rfl, hplain, hbody⟩
    | @inline es es' hplain hplain' =>
      rw [follow, follow, reference?, reference?, hplain, hplain']
      exact .ok ⟨rfl, hplain, hbody⟩
    | reference rest hreference hreference' =>
      rw [follow, follow, reference?, reference?, hreference, hreference']
      -- The two references have one text after the place of the components, and so name one
      -- component.
      refine (h.comparable_resolve pointer pointer' rest).bind ?_
      rintro name _ - - rfl
      have hnext := h.rel_field? name
      by_cases hmem : name ∈ chain
      · simp only [hmem, if_true]
        exact .errors _ _
      · simp only [hmem, if_false]
        generalize Entries.field? cs.entries name = found at hnext ⊢
        generalize Entries.field? cs'.entries name = found' at hnext ⊢
        cases hnext with
        | none => exact .errors _ _
        | some hnext => exact ih _ hnext

/-- References lead to the same schema in line, if to any. Of those that were followed before, only
what stands behind the place of the components is told here. -/
lemma rel_governingFrom (h : cs.RelocatesTo cs') (steps : Nat) (seen : List String)
    (hraw : cs.Relocated cs' raw raw') :
    Option.Rel (Entries.Alike (cs.Relocated cs'))
      (cs.governingFrom steps (seen.map (container cs.version ++ "/" ++ ·)) raw)
      (cs'.governingFrom steps (seen.map (container cs'.version ++ "/" ++ ·)) raw') := by
  induction steps generalizing seen raw raw' with
  | zero => exact .none
  | succ steps ih =>
    cases hraw.form with
    | other hmapping =>
      cases raw with
      | dict es => cases hmapping
      | _ => exact .none
    | inline hplain hplain' halike =>
      rw [governingFrom, governingFrom, hplain, hplain']
      exact .some halike
    | reference rest hreference hreference' =>
      have hseen : ∀ base : Pointer,
          base ++ "/" ++ rest ∈ seen.map (base ++ "/" ++ ·) ↔ rest ∈ seen := by
        intro base
        refine List.mem_map_of_injective fun x y hxy => ?_
        simpa using hxy
      rw [governingFrom, governingFrom, hreference, hreference']
      simp only [referenceName?_below, hseen]
      split
      · exact .none
      · exact ih (rest :: seen) (h.relocated_field _)

/-- Literals are read alike. -/
lemma readsAlike (h : cs.RelocatesTo cs') : cs.ReadsAlike cs' (cs.Relocated cs') where
  null := .null
  isNull_eq := Raw.Relocated.isNull_eq
  isMapping_eq := Raw.Relocated.isMapping_eq
  rel_governing? hraw := by
    rw [governing?, governing?, h.length_eq]
    exact h.rel_governingFrom _ [] hraw

/-- The same schema is read in either place, if any. -/
lemma ensuresAt (h : cs.RelocatesTo cs') (hraw : cs.Relocated cs' raw raw') :
    EnsuresAt True cs cs' raw raw' := by
  refine ensuresAt_of_readsAlike h.readsAlike ?_ hraw
  intro es raw' hraw
  cases hraw.form with
  | other hmapping => cases hmapping
  | inline hplain hplain' halike => exact .inr ⟨_, rfl, hplain, hplain', halike⟩
  | reference rest hreference hreference' =>
    refine .inl fun pointer pointer' => ?_
    rw [schemaAt, schemaAt, hreference, hreference']
    exact (Ensures.of_comparable (h.comparable_resolve pointer pointer' rest)).map

end RelocatesTo

end Components

/-! ### Documents -/

lemma Fields.forall₂_insert {α β : Type} {R : String × α → String × β → Prop} {fs : Fields α}
    {gs : Fields β} {name : String} {a : α} {b : β} (h : List.Forall₂ R fs gs)
    (hnames : ∀ f g, R f g → f.1 = g.1) (hR : R (name, a) (name, b)) :
    List.Forall₂ R (fs.insert name a) (gs.insert name b) := by
  induction h with
  | nil => exact .cons hR .nil
  | @cons f g _ _ head tail ih =>
    rw [insert, insert, hnames f g head]
    split
    · exact .cons hR tail
    · exact .cons head ih

/-- Documents with the same components and aliases, whose components stand in two places. -/
structure LoadedDocument.SameBelow (base base' : Pointer) (d d' : LoadedDocument) : Prop where
  components : List.Forall₂ (fun c c' => c.1 = c'.1 ∧ c.2.node = c'.2.node
    ∧ c.2.pointer = base.push c.1 ∧ c'.2.pointer = base'.push c.1) d.components d'.components
  aliases : d.aliases = d'.aliases

namespace Components.RelocatesTo

open LoadedDocument

variable {cs cs' : Components} {loaded loaded' : LoadedDocument}

/-- Adding a component in either place keeps the components the same. -/
lemma comparable_addComponent (h : cs.RelocatesTo cs')
    (hloaded : loaded.SameBelow (container cs.version) (container cs'.version) loaded')
    (key : Raw) {body body' : Raw} (hbody : cs.Relocated cs' body body') :
    Comparable (SameBelow (container cs.version) (container cs'.version))
      (cs.addComponent loaded key body) (cs'.addComponent loaded' key body') := by
  have hfound := SchemaNode.find?_of_forall₂ (R := fun c c' : Component => c.node = c'.node)
    (hloaded.components.imp fun _ _ hc => ⟨hc.1, hc.2.1⟩) key.text
  rw [addComponent, addComponent, aliasTarget, aliasTarget, h.length_eq]
  refine (h.comparable_follow _ _ _ _ hbody).bind ?_
  rintro ⟨target, shape⟩ ⟨_, shape'⟩ - - ⟨rfl, hplain, hshape⟩
  cases hshape.form with
  | other hmapping =>
    cases shape with
    | dict es => cases hmapping
    | _ => exact .errors _ _
  | @reference es es' rest hreference =>
    -- no chain ends at an alias
    rw [reference?, hreference] at hplain
    cases hplain
  | @inline es es' _ _ halike =>
    have hbelow : es.Alike (EnsuresAt True cs cs') es' :=
      halike.of_smaller (fun _ => h.ensuresAt) fun _ _ _ => h.ensuresAt
    refine ((ensures_fill h.readsAlike hshape halike hbelow _ _ ?_).comparable trivial).bind ?_
    · intro _
      rcases hfound with ⟨hnone, hnone'⟩ | ⟨c, c', hc, hc', hnode⟩
      · rw [hnone, hnone']
      · rw [hc, hc']
        exact hnode.symm
    · rintro node _ - - rfl
      have hadded := Fields.forall₂_insert hloaded.components (fun _ _ hc => hc.1)
        (a := ⟨cs.pointerTo key.text, node⟩) (b := ⟨cs'.pointerTo key.text, node⟩)
        ⟨rfl, rfl, rfl, rfl⟩
      exact .ok ⟨hadded, by rw [hloaded.aliases]⟩

/-- Loading in either place comes to the same components, if to any. -/
lemma comparable_load (h : cs.RelocatesTo cs') {es es' : Entries}
    (hes : List.Forall₂ (fun e e' : Raw × Raw => e.1 = e'.1 ∧ cs.Relocated cs' e.2 e'.2) es es')
    (hloaded : loaded.SameBelow (container cs.version) (container cs'.version) loaded') :
    Comparable (SameBelow (container cs.version) (container cs'.version))
      (cs.load es loaded) (cs'.load es' loaded') := by
  induction hes generalizing loaded loaded' with
  | nil => exact .ok hloaded
  | @cons e e' _ _ head _ ih =>
    obtain ⟨key, body⟩ := e
    obtain ⟨_, body'⟩ := e'
    obtain ⟨rfl, hbody⟩ := head
    rw [load, load]
    exact (h.comparable_addComponent hloaded key hbody).bind fun _ _ _ _ hnext => ih hnext

end Components.RelocatesTo

namespace LoadedDocument

variable {d d' : LoadedDocument}

/-- A document whose components are declared in another place loads alike. -/
lemma comparable_ofRaw {document document' : Raw} {cs cs' : Components}
    (hcs : Components.ofDocument document = .ok cs)
    (hcs' : Components.ofDocument document' = .ok cs') (h : cs.RelocatesTo cs') :
    Comparable (SameBelow (Components.container cs.version) (Components.container cs'.version))
      (ofRaw document) (ofRaw document') := by
  rw [ofRaw, ofRaw, hcs, hcs']
  change Comparable _ (Components.requireNames _ >>= fun _ => _)
    (Components.requireNames _ >>= fun _ => _)
  rw [h.keys_eq]
  exact (Comparable.refl _).bind fun _ _ _ _ _ => h.comparable_load h ⟨.nil, rfl⟩

lemma layComponents_congr {names : List String} {place : Nat} {nodes : Array Node}
    {components components' : List (String × Component)}
    (h : List.Forall₂ (fun c c' => c.2.node = c'.2.node) components components') :
    layComponents names place components' nodes = layComponents names place components nodes := by
  induction h generalizing place nodes with
  | nil => rfl
  | @cons c c' _ _ hnode _ ih =>
    obtain ⟨name, component⟩ := c
    obtain ⟨name', component'⟩ := c'
    dsimp only at hnode
    rw [layComponents, layComponents, hnode]
    exact ih

lemma SameBelow.names_eq {base base' : Pointer} (h : d.SameBelow base base' d') :
    d'.names = d.names := by
  rw [names, names, Fields.names, Fields.names, ← List.forall₂_eq_eq_eq,
    List.forall₂_map_left_iff, List.forall₂_map_right_iff]
  exact h.components.flip.imp fun _ _ hc => hc.1.symm

/-- The graph of a document is made of the names and the nodes of its components. -/
lemma SameBelow.graph_eq {base base' : Pointer} (h : d.SameBelow base base' d') :
    d'.graph = d.graph := by
  rw [graph, graph, h.names_eq, h.components.length_eq,
    layComponents_congr (h.components.imp fun _ _ hc => hc.2.1)]

end LoadedDocument

end ApiLint
