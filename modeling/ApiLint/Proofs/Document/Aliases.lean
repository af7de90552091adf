import ApiLint.Proofs.Document.Reading

/-!
# Components and their aliases

The components of a text-keyed document have distinct names. A chain of aliases ends at a component
that is no alias, and the mapping that governs the literals of a reference is the body of that
component: both follow the same chain. What is loaded are the components in order of declaration,
each with the shape at the end of its chain.
-/

namespace ApiLint

namespace Components

variable {cs : Components}

lemma isTextKeyed_entriesAt {path keys : List String} {raw : Raw} {es : Entries}
    (hraw : raw.isTextKeyed = true) (h : entriesAt path keys raw = .ok es) :
    (Raw.dict es).isTextKeyed = true := by
  induction keys generalizing raw with
  | nil =>
    cases raw with
    | dict entries => cases h; exact hraw
    | _ => cases h
  | cons key keys ih =>
    cases raw with
    | dict entries =>
      refine ih ?_ h
      split
      · rfl
      · exact Raw.isTextKeyed_field hraw key
    | _ => cases h; rfl

/-- If two documents have one version, and the entries of one come from those of the other, then so
do the components. -/
lemma ofDocument_map {document document' : Raw} {f : Family → Entries → Entries}
    (hversion : Version.ofDocument document' = Version.ofDocument document)
    (hentries : ∀ whole (family : Family), entriesAt whole family.schemasPath document'
      = (entriesAt whole family.schemasPath document).map (f family)) :
    ofDocument document' = (ofDocument document).map fun cs =>
      { cs with entries := f cs.version.family cs.entries } := by
  rw [ofDocument, ofDocument, hversion]
  cases Version.ofDocument document with
  | error e => rfl
  | ok version =>
    change (do return Components.mk version (← entriesAt _ version.schemasPath _))
      = ((do return Components.mk version (← entriesAt _ version.schemasPath _)) : Except _ _).map _
    rw [Version.schemasPath, hentries]
    cases entriesAt version.family.schemasPath version.family.schemasPath document <;> rfl

lemma isTextKeyed_of_ofDocument {document : Raw} (hdocument : document.isTextKeyed = true)
    (h : ofDocument document = .ok cs) : (Raw.dict cs.entries).isTextKeyed = true := by
  obtain ⟨version, _, h⟩ := bind_eq_ok_iff.mp h
  obtain ⟨es, hes, h⟩ := bind_eq_ok_iff.mp h
  cases h
  exact isTextKeyed_entriesAt hdocument hes

lemma nodup_names (hcs : (Raw.dict cs.entries).isTextKeyed = true) : cs.names.Nodup :=
  Raw.nodup_names hcs

/-! ### Chains of aliases -/

/-- One step along a chain of aliases: either the body is no reference, or the chain goes on to a
component that is not on it. -/
lemma follow_succ_eq_ok {pointer : Pointer} {steps : Nat} {chain : List String} {body : Raw}
    {result : String × Raw} (h : cs.follow pointer (steps + 1) chain body = .ok result) :
    (reference? body = none ∧ result = (chain.headD "", body))
      ∨ ∃ text name next, reference? body = some (.str text) ∧ cs.referenceName? text = some name
        ∧ name ∉ chain ∧ Entries.field? cs.entries name = some next
        ∧ cs.follow pointer steps (name :: chain) next = .ok result := by
  rw [follow] at h
  split at h
  · next hnone =>
    cases h
    exact .inl ⟨hnone, rfl⟩
  · next reference hreference =>
    obtain ⟨name, hname, hgo⟩ := bind_eq_ok_iff.mp h
    obtain ⟨text, rfl, hfound, _⟩ := resolve_eq_ok hname
    by_cases hmem : name ∈ chain
    · simp only [hmem, if_true] at hgo
      cases hgo
    · simp only [hmem, if_false] at hgo
      cases hnext : Entries.field? cs.entries name with
      | none =>
        rw [hnext] at hgo
        cases hgo
      | some next =>
        rw [hnext] at hgo
        exact .inr ⟨text, name, next, hreference, hfound, hmem, hnext, hgo⟩

/-- A chain of aliases ends at a body without a reference, which is the body of its last component.
A component that is no alias is the end of its own chain. -/
lemma follow_eq_ok {pointer : Pointer} {steps : Nat} {name : String} {chain : List String}
    {body : Raw} {target : String} {shape : Raw}
    (hbody : Entries.field? cs.entries name = some body)
    (h : cs.follow pointer steps (name :: chain) body = .ok (target, shape)) :
    reference? shape = none ∧ Entries.field? cs.entries target = some shape
      ∧ ((reference? body = none ∧ target = name)
        ∨ ((reference? body).isSome ∧ target ∉ name :: chain)) := by
  induction steps generalizing name chain body with
  | zero => cases h
  | succ steps ih =>
    rcases follow_succ_eq_ok h with ⟨hnone, heq⟩ | ⟨text, next, body', hsome, _, hnew, hbody', h⟩
    · cases heq
      exact ⟨hnone, hbody, .inl ⟨hnone, rfl⟩⟩
    · obtain ⟨hshape, hfound, htarget⟩ := ih hbody' h
      refine ⟨hshape, hfound, .inr ⟨by simp [hsome], ?_⟩⟩
      rcases htarget with ⟨_, rfl⟩ | ⟨_, hnot⟩
      · exact hnew
      · exact fun hmem => hnot (List.mem_cons_of_mem _ hmem)

/-- Aliases lead from the body of a component to that of a component that is no alias. -/
lemma exists_entry_of_follow {pointer : Pointer} {steps : Nat} {chain : List String} {body : Raw}
    {result : String × Raw} (hbody : ∃ e ∈ cs.entries, e.2 = body)
    (h : cs.follow pointer steps chain body = .ok result) :
    reference? result.2 = none ∧ ∃ e ∈ cs.entries, e.2 = result.2 := by
  induction steps generalizing chain body with
  | zero => cases h
  | succ steps ih =>
    rcases follow_succ_eq_ok h with ⟨hnone, rfl⟩ | ⟨_, _, next, _, _, _, hnext, h⟩
    · exact ⟨hnone, hbody⟩
    · exact ih ⟨_, Entries.mem_of_field? hnext, rfl⟩ h

/-- The shape of a component is the body of a component that is no alias; this is the component
itself unless it is an alias. -/
lemma aliasTarget_eq_ok {name : String} {body : Raw} {target : String} {shape : Raw}
    (hbody : Entries.field? cs.entries name = some body)
    (h : cs.aliasTarget name body = .ok (target, shape)) :
    reference? shape = none ∧ Entries.field? cs.entries target = some shape
      ∧ (target = name ↔ reference? body = none) := by
  obtain ⟨hshape, hfound, htarget⟩ := follow_eq_ok hbody h
  refine ⟨hshape, hfound, ?_⟩
  rcases htarget with ⟨hnone, heq⟩ | ⟨hsome, hnot⟩
  · exact iff_of_true heq hnone
  · refine iff_of_false (fun heq => hnot ?_) (fun hnone => by simp [hnone] at hsome)
    rw [heq]
    exact List.mem_cons_self ..

/-- A component that is no alias has its body as its shape. -/
lemma shape_eq_of_reference?_eq_none {name target : String} {body shape : Raw}
    (hplain : reference? body = none) (h : cs.aliasTarget name body = .ok (target, shape)) :
    shape = body := by
  rw [aliasTarget, follow, hplain] at h
  cases h
  rfl

/-- Following a chain of aliases and following references to what governs a literal come to the same
end. The chain holds the names in the references that were followed before. -/
lemma governingFrom_of_follow {pointer : Pointer} {steps : Nat} {chain seen : List String}
    {body : Raw} {target : String} {es : Entries}
    (hseen : ∀ reference ∈ seen, ∃ name ∈ chain, cs.referenceName? reference = some name)
    (h : cs.follow pointer steps chain body = .ok (target, .dict es)) :
    cs.governingFrom steps seen body = some es := by
  induction steps generalizing chain seen body with
  | zero => cases h
  | succ steps ih =>
    rcases follow_succ_eq_ok h with
      ⟨hnone, heq⟩ | ⟨text, name, next, hsome, hname, hnew, hnext, hrest⟩
    · cases heq
      rw [reference?] at hnone
      simp [governingFrom, hnone]
    · obtain ⟨entries, rfl⟩ : ∃ entries, body = .dict entries := by
        cases body with
        | dict entries => exact ⟨entries, rfl⟩
        | _ => cases hsome
      -- What was seen leads to a name on the chain, and the next name is new to the chain.
      have hunseen : text ∉ seen := by
        intro hmem
        obtain ⟨name', hmem', hname'⟩ := hseen text hmem
        rw [hname] at hname'
        cases hname'
        exact hnew hmem'
      rw [reference?] at hsome
      simp only [governingFrom, hsome, if_neg hunseen, hname, Entries.field_of_field? hnext]
      refine ih ?_ hrest
      intro reference hmem
      rcases List.mem_cons.mp hmem with rfl | hmem
      · exact ⟨name, List.mem_cons_self .., hname⟩
      · obtain ⟨name', hmem', hname'⟩ := hseen reference hmem
        exact ⟨name', List.mem_cons_of_mem _ hmem', hname'⟩

/-- A raw schema without a reference governs by itself. -/
lemma governing?_inline {es : Entries} (h : es.field? "$ref" = none) :
    cs.governing? (.dict es) = some es := by
  simp [governing?, governingFrom, h]

/-- A reference to a component governs by the shape of the component. -/
lemma governing?_reference {es shape : Entries} {text name target : String} {body : Raw}
    (hreference : es.field? "$ref" = some (.str text)) (hname : cs.referenceName? text = some name)
    (hbody : Entries.field? cs.entries name = some body)
    (h : cs.aliasTarget name body = .ok (target, .dict shape)) :
    cs.governing? (.dict es) = some shape := by
  simp only [governing?, governingFrom, hreference, List.not_mem_nil, if_false, hname,
    Entries.field_of_field? hbody]
  refine governingFrom_of_follow ?_ h
  intro reference hmem
  rw [List.mem_singleton.mp hmem]
  exact ⟨name, List.mem_cons_self .., hname⟩

/-- Only mappings govern. -/
lemma governing?_eq_none {raw : Raw} (h : raw.isMapping = false) : cs.governing? raw = none := by
  cases raw <;> simp_all [Raw.isMapping, governing?, governingFrom]

/-! ### Loading -/

/-- A component as it is loaded from an entry of a document. -/
structure Enters (cs : Components) (e : Raw × Raw) (c : String × Component) : Prop where
  name : c.1 = e.1.text
  pointer : c.2.pointer = cs.pointerTo e.1.text
  reference : c.2.node.reference = some e.1.text
  shape : ∃ (target : String) (es : Entries), cs.aliasTarget e.1.text e.2 = .ok (target, .dict es)
    ∧ (Raw.dict es).isTextKeyed = true ∧ es.field? "$ref" = none ∧ cs.Declares es c.2.node
    ∧ SchemaNode.Similar cs.Builds es.outline c.2.node

/-- The alias that an entry declares, with the component at the end of its chain. -/
def aliasOf? (cs : Components) (e : Raw × Raw) : Option (String × String) :=
  match cs.aliasTarget e.1.text e.2 with
  | .ok (target, _) => if target = e.1.text then none else some (e.1.text, target)
  | .error _ => none

lemma aliasOf?_eq_some {e : Raw × Raw} {declared : String × String}
    (h : cs.aliasOf? e = some declared) :
    declared.1 = e.1.text ∧ declared.2 ≠ e.1.text
      ∧ ∃ shape, cs.aliasTarget e.1.text e.2 = .ok (declared.2, shape) := by
  rw [aliasOf?] at h
  split at h
  · next target shape htarget =>
    split at h
    · cases h
    · next hne =>
      cases h
      exact ⟨rfl, hne, shape, htarget⟩
  · cases h

/-- An entry of a document that is loaded declares an alias if and only if its body is a
reference. -/
lemma isSome_aliasOf? (hcs : (Raw.dict cs.entries).isTextKeyed = true) {e : Raw × Raw}
    (he : e ∈ cs.entries) {target : String} {shape : Raw}
    (htarget : cs.aliasTarget e.1.text e.2 = .ok (target, shape)) :
    (cs.aliasOf? e).isSome ↔ (reference? e.2).isSome := by
  obtain ⟨_, _, hiff⟩ := aliasTarget_eq_ok (Raw.field?_text_of_mem hcs he) htarget
  rw [Option.isSome_iff_ne_none, Option.isSome_iff_ne_none, ne_eq (reference? e.2), ← hiff, aliasOf?,
    htarget]
  by_cases htext : target = e.1.text <;> simp [htext]

section Declared

variable {es : Entries} (hnames : (es.map fun e => e.1.text).Nodup)
include hnames

lemma nodup_names_aliases : (Fields.names (es.filterMap cs.aliasOf?)).Nodup := by
  rw [List.Nodup, List.pairwise_map] at hnames
  rw [Fields.names, List.Nodup, List.pairwise_map, List.pairwise_filterMap]
  refine hnames.imp ?_
  intro e e' hne declared hdeclared declared' hdeclared'
  rwa [(aliasOf?_eq_some hdeclared).1, (aliasOf?_eq_some hdeclared').1]

/-- Under the name of an entry stands the alias that this entry declares, if any. -/
lemma find?_aliases {e : Raw × Raw} (he : e ∈ es) :
    Fields.find? (es.filterMap cs.aliasOf?) e.1.text = (cs.aliasOf? e).map Prod.snd := by
  cases hdeclared : cs.aliasOf? e with
  | some declared =>
    rw [← (aliasOf?_eq_some hdeclared).1]
    exact Fields.find?_of_mem (nodup_names_aliases hnames)
      (List.mem_filterMap.mpr ⟨e, he, hdeclared⟩)
  | none =>
    rw [Option.map_none, Fields.find?_eq_none_iff]
    intro hmem
    obtain ⟨declared, hmem, hname⟩ := List.mem_map.mp hmem
    obtain ⟨e', he', hdeclared'⟩ := List.mem_filterMap.mp hmem
    have hsame : e' = e := List.inj_on_of_nodup_map hnames he' he
      ((aliasOf?_eq_some hdeclared').1.symm.trans hname)
    rw [hsame, hdeclared] at hdeclared'
    cases hdeclared'

end Declared

/-! ### Entries -/

/-- The node into which the schema of a component is read: that of the component loaded under the
name, or a blank one. -/
def nodeBefore (loaded : LoadedDocument) (name : String) : SchemaNode Schema :=
  match Fields.find? loaded.components name with
  | some component => component.node
  | none => { SchemaNode.blank with reference := some name }

/-- An entry is loaded if its chain of aliases ends at a mapping that can be read. Then it becomes
the component of its name, which is declared an alias if the chain does not end where it starts. -/
lemma addComponent_eq_ok_iff {loaded next : LoadedDocument} {key body : Raw} :
    cs.addComponent loaded key body = .ok next ↔ ∃ target es node,
      cs.aliasTarget key.text body = .ok (target, .dict es)
      ∧ cs.fill (cs.pointerTo key.text) (nodeBefore loaded key.text) es
        (cs.partsAt (cs.pointerTo key.text) es) = .ok node
      ∧ next = { loaded with
          components := Fields.insert loaded.components key.text ⟨cs.pointerTo key.text, node⟩
          aliases := if target = key.text then loaded.aliases
            else Fields.insert loaded.aliases key.text target } := by
  constructor
  · intro h
    obtain ⟨⟨target, shape⟩, htarget, h⟩ := bind_eq_ok_iff.mp h
    cases shape with
    | dict es =>
      obtain ⟨node, hnode, h⟩ := bind_eq_ok_iff.mp h
      cases h
      exact ⟨target, es, node, htarget, hnode, rfl⟩
    | _ => cases h
  · rintro ⟨target, es, node, htarget, hnode, rfl⟩
    exact bind_eq_ok_iff.mpr ⟨_, htarget, bind_eq_ok_iff.mpr ⟨node, hnode, rfl⟩⟩

lemma load_cons_eq_ok {es : Entries} {e : Raw × Raw} {loaded d : LoadedDocument}
    (h : cs.load (e :: es) loaded = .ok d) :
    ∃ next, cs.addComponent loaded e.1 e.2 = .ok next ∧ cs.load es next = .ok d :=
  bind_eq_ok_iff.mp h

/-- A document into which entries are loaded that bring new names only. Its aliases are components
that are there. -/
structure IsOpenTo (es : Entries) (loaded : LoadedDocument) : Prop where
  names : (Fields.names loaded.components ++ es.map fun e => e.1.text).Nodup
  aliases : Fields.names loaded.aliases ⊆ Fields.names loaded.components

/-- An entry with a new name adds one component, and its alias if it declares one. -/
lemma isOpenTo_addComponent (hcs : (Raw.dict cs.entries).isTextKeyed = true) {es : Entries}
    {loaded loaded' : LoadedDocument} {e : Raw × Raw} (he : e ∈ cs.entries)
    (hopen : IsOpenTo (e :: es) loaded) (h : cs.addComponent loaded e.1 e.2 = .ok loaded') :
    IsOpenTo es loaded' ∧ ∃ component, cs.Enters e (e.1.text, component)
      ∧ loaded' = { loaded with
          components := loaded.components ++ [(e.1.text, component)]
          aliases := loaded.aliases ++ (cs.aliasOf? e).toList } := by
  obtain ⟨hloaded, hothers, hdisjoint⟩ := List.nodup_append.mp hopen.names
  have hnew : e.1.text ∉ Fields.names loaded.components := fun hmem =>
    hdisjoint _ hmem _ (List.mem_cons_self ..) rfl
  obtain ⟨target, entries, node, htarget, hnode, rfl⟩ := addComponent_eq_ok_iff.mp h
  have hblank : nodeBefore loaded e.1.text
      = { SchemaNode.blank with reference := some e.1.text } := by
    rw [nodeBefore, Fields.find?_eq_none_iff.mpr hnew]
  have hdeclared : (if target = e.1.text then loaded.aliases
      else Fields.insert loaded.aliases e.1.text target)
        = loaded.aliases ++ (cs.aliasOf? e).toList := by
    rw [aliasOf?, htarget]
    by_cases htext : target = e.1.text
    · simp [htext]
    · simp [htext, Fields.insert_of_notMem fun hmem => hnew (hopen.aliases hmem)]
  rw [hblank] at hnode
  obtain ⟨hplain, hfound, _⟩ := aliasTarget_eq_ok (Raw.field?_text_of_mem hcs he) htarget
  have hentries : (Raw.dict entries).isTextKeyed = true := Raw.isTextKeyed_field? hcs hfound
  obtain ⟨hreference, hdeclares, hsimilar⟩ := fill_eq_ok hentries hnode
  rw [Fields.insert_of_notMem hnew, hdeclared]
  refine ⟨⟨?_, ?_⟩, ⟨cs.pointerTo e.1.text, node⟩, ⟨rfl, rfl, hreference, target, entries, htarget,
    hentries, hplain, hdeclares, hsimilar⟩, rfl⟩
  · simpa [Fields.names, List.append_assoc] using hopen.names
  · rw [Fields.names, Fields.names, List.map_append, List.map_append]
    refine List.append_subset.mpr ⟨List.subset_append_of_subset_left _ hopen.aliases, ?_⟩
    intro name hname
    obtain ⟨declared, hsome, rfl⟩ := List.mem_map.mp hname
    rw [(aliasOf?_eq_some (Option.mem_toList.mp hsome)).1]
    simp

/-- Entries are loaded one after the other: their components stand behind those that are there, and
so do the aliases that they declare. -/
lemma load_eq_ok (hcs : (Raw.dict cs.entries).isTextKeyed = true) {es : Entries}
    (hes : ∀ e ∈ es, e ∈ cs.entries) {loaded d : LoadedDocument} (hopen : IsOpenTo es loaded)
    (h : cs.load es loaded = .ok d) :
    d.aliases = loaded.aliases ++ es.filterMap cs.aliasOf?
      ∧ ∃ more, d.components = loaded.components ++ more ∧ List.Forall₂ cs.Enters es more := by
  induction es generalizing loaded with
  | nil =>
    cases h
    exact ⟨by simp, [], by simp, .nil⟩
  | cons e es ih =>
    obtain ⟨next, hnext, hrest⟩ := load_cons_eq_ok h
    obtain ⟨hopen', component, henters, rfl⟩ :=
      isOpenTo_addComponent hcs (hes e (List.mem_cons_self ..)) hopen hnext
    obtain ⟨haliases, more, hmore, hforall⟩ :=
      ih (fun f hf => hes f (List.mem_cons_of_mem _ hf)) hopen' hrest
    refine ⟨?_, (e.1.text, component) :: more, ?_, .cons henters hforall⟩
    · rw [haliases, List.append_assoc, List.filterMap_cons]
      cases cs.aliasOf? e <;> rfl
    · rw [hmore, List.append_assoc, List.singleton_append]

end Components

namespace LoadedDocument

variable {document : Raw} {d : LoadedDocument} {cs : Components}

/-- What a document comes to that is loaded: the components enter it in order of declaration, and so
do the aliases that they declare. -/
lemma components_and_aliases_of_ofRaw (hdocument : document.isTextKeyed = true)
    (hcs : Components.ofDocument document = .ok cs) (h : ofRaw document = .ok d) :
    d.aliases = cs.entries.filterMap cs.aliasOf?
      ∧ List.Forall₂ cs.Enters cs.entries d.components := by
  have hkeyed := Components.isTextKeyed_of_ofDocument hdocument hcs
  obtain ⟨cs', hcs', -, hload⟩ := ofRaw_eq_ok_iff.mp h
  rw [hcs] at hcs'
  cases hcs'
  have hopen : Components.IsOpenTo cs.entries { version := cs.version } :=
    ⟨by simpa [Fields.names, Components.names] using Components.nodup_names hkeyed,
      List.nil_subset _⟩
  obtain ⟨haliases, more, hmore, hforall⟩ :=
    Components.load_eq_ok hkeyed (fun _ he => he) hopen hload
  refine ⟨haliases, ?_⟩
  rw [hmore]
  exact hforall

lemma aliases_eq (hdocument : document.isTextKeyed = true)
    (hcs : Components.ofDocument document = .ok cs) (h : ofRaw document = .ok d) :
    d.aliases = cs.entries.filterMap cs.aliasOf? :=
  (components_and_aliases_of_ofRaw hdocument hcs h).1

lemma forall₂_enters (hdocument : document.isTextKeyed = true)
    (hcs : Components.ofDocument document = .ok cs) (h : ofRaw document = .ok d) :
    List.Forall₂ cs.Enters cs.entries d.components :=
  (components_and_aliases_of_ofRaw hdocument hcs h).2

/-- The aliases are the components whose bodies are references. -/
lemma isSome_find?_aliases (hdocument : document.isTextKeyed = true)
    (hcs : Components.ofDocument document = .ok cs) (h : ofRaw document = .ok d) {e : Raw × Raw}
    (he : e ∈ cs.entries) :
    (Fields.find? d.aliases e.1.text).isSome ↔ (Components.reference? e.2).isSome := by
  have hkeyed := Components.isTextKeyed_of_ofDocument hdocument hcs
  obtain ⟨c, -, henters⟩ := exists_of_forall₂_of_mem_left (forall₂_enters hdocument hcs h) he
  obtain ⟨target, shape, htarget, -⟩ := henters.shape
  rw [aliases_eq hdocument hcs h, Components.find?_aliases (Components.nodup_names hkeyed) he,
    Option.isSome_map, Components.isSome_aliasOf? hkeyed he htarget]

end LoadedDocument

end ApiLint
