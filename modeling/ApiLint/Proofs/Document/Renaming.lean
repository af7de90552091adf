import ApiLint.Proofs.Document.Redirecting
import ApiLint.Proofs.Document.Transfer

/-!
# Components under other names

Components may be declared under other names, if the references to them follow suit. A reference to
an alias may as well lead to the end of the chain at once. Chains of aliases then end at the same
components as before, and so the document loads as before, with the same aliases under their new
names.
-/

namespace ApiLint

namespace Components

/-- Components that are declared under new names, with references to components with related names.
The related names of a component are its new name and perhaps that of the end of its chain. -/
structure Renames (cs cs' : Components) (σ : String → String) (ρ : String → String → Prop)
    (g : List String → Raw → Raw) : Prop where
  entries : List.Forall₂ (fun e e' : Raw × Raw => e'.1.text = σ e.1.text
    ∧ ∃ path, e'.2 = e.2.redirect g path .schema) cs.entries cs'.entries
  injective : ∀ name ∈ cs.names, ∀ other ∈ cs.names, σ name = σ other → name = other
  reference : ∀ path text name, cs.referenceName? text = some name → name ∈ cs.names →
    ∃ text' name', g path (.str text) = .str text' ∧ cs'.referenceName? text' = some name'
      ∧ ρ name name'
  self : ∀ name ∈ cs.names, ρ name (σ name)
  related : ∀ name name', ρ name name' → name ∈ cs.names
    ∧ (name' = σ name ∨ ∃ target shape, cs.EndsAt name target shape ∧ name' = σ target)

namespace Renames

variable {cs cs' : Components} {σ : String → String} {ρ : String → String → Prop}
  {g : List String → Raw → Raw} {name target : String} {body shape : Raw}

lemma names_eq (h : cs.Renames cs' σ ρ g) : cs'.names = cs.names.map σ := by
  have hnames : List.Forall₂ (fun e e' : Raw × Raw => e'.1.text = σ e.1.text) cs.entries
      cs'.entries := h.entries.imp fun _ _ he => he.1
  rw [names, names, List.map_map, ← List.forall₂_eq_eq_eq, List.forall₂_map_left_iff,
    List.forall₂_map_right_iff]
  exact hnames.flip

/-- The raw schemas of the components are redirected. -/
lemma exists_field? (h : cs.Renames cs' σ ρ g) (hkeyed : (Raw.dict cs'.entries).isTextKeyed = true)
    (hbody : Entries.field? cs.entries name = some body) :
    ∃ path, Entries.field? cs'.entries (σ name) = some (body.redirect g path .schema) := by
  obtain ⟨e', he', hname, path, hbody'⟩ :=
    exists_of_forall₂_of_mem_left h.entries (Entries.mem_of_field? hbody)
  refine ⟨path, ?_⟩
  rw [← hbody', ← Raw.field?_text_of_mem hkeyed he', hname, Raw.text_str]

lemma reference?_redirect_eq_none (hplain : reference? body = none) (path : List String) :
    reference? (body.redirect g path .schema) = none := by
  cases body with
  | dict es =>
    have hfield : Entries.field? es "$ref" = none := hplain
    rw [Raw.redirect, reference?, Entries.field?_redirect_reference, hfield]
    rfl
  | _ => rfl

/-- A reference is put in the place of each reference. -/
lemma exists_referredName? (h : cs.Renames cs' σ ρ g) (hname : cs.referredName? body = some name)
    (hmem : name ∈ cs.names) (path : List String) :
    ∃ name', cs'.referredName? (body.redirect g path .schema) = some name' ∧ ρ name name' := by
  obtain ⟨es, text, rfl, hfield, htext⟩ := exists_dict_of_referredName? hname
  obtain ⟨text', name', hg, hname', hnames⟩ := h.reference (path ++ ["$ref"]) text _ htext hmem
  refine ⟨name', ?_, hnames⟩
  have hreference : reference? (.dict (Raw.redirectEntries g path .schema es))
      = some (.str text') := by
    rw [reference?, Entries.field?_redirect_reference, hfield, Option.map_some, hg]
  rw [Raw.redirect, referredName?_of_reference? hreference, hname']

/-- The end of a chain ends its own chain also under its new name. -/
lemma endsAt_target (h : cs.Renames cs' σ ρ g) (hkeyed : (Raw.dict cs'.entries).isTextKeyed = true)
    (hends : cs.EndsAt name target shape) :
    ∃ path, cs'.EndsAt (σ target) (σ target) (shape.redirect g path .schema) := by
  obtain ⟨_, hends⟩ := hends
  obtain ⟨hfound, hplain⟩ := hends.target_found
  obtain ⟨path, hfound'⟩ := h.exists_field? hkeyed hfound
  exact ⟨path, 0, .stop hfound' (reference?_redirect_eq_none hplain path)⟩

/-- Chains end at the same components under their new names. -/
lemma endsAt (h : cs.Renames cs' σ ρ g) (hkeyed : (Raw.dict cs'.entries).isTextKeyed = true)
    (hends : cs.EndsAt name target shape) :
    ∃ path, cs'.EndsAt (σ name) (σ target) (shape.redirect g path .schema) := by
  obtain ⟨steps, hends⟩ := hends
  induction hends with
  | stop hshape hplain => exact h.endsAt_target hkeyed ⟨0, .stop hshape hplain⟩
  | @step steps name next body hbody hnext hends ih =>
    obtain ⟨path, hbody'⟩ := h.exists_field? hkeyed hbody
    obtain ⟨next', hnext', hnames⟩ :=
      h.exists_referredName? hnext (EndsAt.mem_names ⟨_, hends⟩) path
    rcases (h.related _ _ hnames).2 with rfl | ⟨end', shape', hends', rfl⟩
    · obtain ⟨last, length, htail⟩ := ih
      exact ⟨last, length + 1, .step hbody' hnext' htail⟩
    · -- the reference leads to the end of the chain at once
      obtain ⟨rfl, rfl⟩ := hends'.unique ⟨_, hends⟩
      obtain ⟨last, length, htail⟩ := h.endsAt_target hkeyed hends'
      exact ⟨last, length + 1, .step hbody' hnext' htail⟩

/-- Chains that start at related names end at the same component. -/
lemma endsAt_of_related (h : cs.Renames cs' σ ρ g)
    (hkeyed : (Raw.dict cs'.entries).isTextKeyed = true) {name' : String} (hname : ρ name name')
    (hends : cs.EndsAt name target shape) :
    ∃ path, cs'.EndsAt name' (σ target) (shape.redirect g path .schema) := by
  rcases (h.related _ _ hname).2 with rfl | ⟨end', shape', hends', rfl⟩
  · exact h.endsAt hkeyed hends
  · obtain ⟨rfl, rfl⟩ := hends'.unique hends
    exact h.endsAt_target hkeyed hends'

/-- A component ends its own chain under its new name if and only if it did so before. -/
lemma target_eq_iff (h : cs.Renames cs' σ ρ g) (hends : cs.EndsAt name target shape) :
    σ target = σ name ↔ target = name := by
  have hname := hends.mem_names
  obtain ⟨_, hends⟩ := hends
  have htarget := mem_names_of_field? hends.target_found.1
  exact ⟨h.injective _ htarget _ hname, congrArg σ⟩

end Renames

/-! ### Renaming all components -/

variable {cs : Components} {σ : String → String}

lemma textAfter?_append (before after : List Char) :
    textAfter? before (before ++ after) = some after := by
  induction before with
  | nil => cases after <;> rfl
  | cons c before ih => simp [textAfter?, ih]

/-- The pointer to a component is a reference to it. -/
lemma referenceName?_pointerTo (name : String) :
    cs.referenceName? (cs.pointerTo name) = some name := by
  have hchars : (cs.pointerTo name).toList
      = (container cs.version ++ "/").toList ++ Pointer.escapeChars name.toList := by
    simp [pointerTo, Pointer.push, Pointer.escape]
  rw [referenceName?, hchars, textAfter?_append, Option.map_some, Pointer.unescapeChars_escapeChars,
    String.ofList_toList]

/-- The reference to a component under its new name, in the place of a reference to it. -/
def renameReference (cs : Components) (σ : String → String) (_ : List String) : Raw → Raw
  | .str text => .str <| ((cs.referenceName? text).map fun name => cs.pointerTo (σ name)).getD text
  | raw => raw

/-- The components under new names, with the references to them. -/
def rename (σ : String → String) (cs : Components) : Components :=
  { cs with
    entries := (cs.redirect (cs.renameReference σ)).entries.map fun e => (.str (σ e.1.text), e.2) }

lemma renames_rename
    (hinjective : ∀ name ∈ cs.names, ∀ other ∈ cs.names, σ name = σ other → name = other) :
    cs.Renames (cs.rename σ) σ (fun name name' => name ∈ cs.names ∧ name' = σ name)
      (cs.renameReference σ) where
  entries := by
    rw [rename, List.forall₂_map_right_iff]
    refine (Raw.forall₂_redirectEntries cs.entries cs.version.schemasPath).imp ?_
    rintro e e' ⟨hkey, hvalue⟩
    exact ⟨by rw [Raw.text_str, hkey], hvalue⟩
  injective := hinjective
  reference := by
    intro path text name hname hmem
    refine ⟨cs.pointerTo (σ name), σ name, ?_, referenceName?_pointerTo _, hmem, rfl⟩
    rw [renameReference, hname]
    rfl
  self _ hname := ⟨hname, rfl⟩
  related _ _ hnames := ⟨hnames.1, .inl hnames.2⟩

end Components

namespace LoadedDocument

variable {document document' : Raw} {d d' : LoadedDocument} {cs cs' : Components}
  {σ : String → String} {ρ : String → String → Prop} {g : List String → Raw → Raw}

/-- The schemas of renamed components correspond to the schemas as they were. -/
lemma corresponds_of_renames (hdocument : document.isTextKeyed = true)
    (hdocument' : document'.isTextKeyed = true) (hcs : Components.ofDocument document = .ok cs)
    (hcs' : Components.ofDocument document' = .ok cs') (h : ofRaw document = .ok d)
    (hrenames : cs.Renames cs' σ ρ g) :
    cs.Corresponds cs' ρ (cs.Redirected (· ∈ cs.names) g) := by
  have hkeyed' := Components.isTextKeyed_of_ofDocument hdocument' hcs'
  apply Components.corresponds_of_redirect hrenames.reference
  intro name name' hname
  obtain ⟨target, es, hends, hwithin⟩ :=
    exists_shape hdocument hcs h (hrenames.related _ _ hname).1
  obtain ⟨path, hends'⟩ := hrenames.endsAt_of_related hkeyed' hname hends
  exact ⟨target, σ target, es, path, hends, hends', hwithin⟩

/-- Renamed components load. -/
lemma exists_of_renames (hdocument : document.isTextKeyed = true)
    (hdocument' : document'.isTextKeyed = true) (hcs : Components.ofDocument document = .ok cs)
    (hcs' : Components.ofDocument document' = .ok cs') (h : ofRaw document = .ok d)
    (hrenames : cs.Renames cs' σ ρ g) : ∃ d', ofRaw document' = .ok d' := by
  apply exists_of_corresponds hdocument hdocument' hcs hcs' h
    (corresponds_of_renames hdocument hdocument' hcs hcs' h hrenames)
  intro name' hname'
  rw [hrenames.names_eq] at hname'
  obtain ⟨name, hname, rfl⟩ := List.mem_map.mp hname'
  exact ⟨name, hrenames.self name hname⟩

/-- The aliases of renamed components are the renamed aliases. -/
lemma aliases_of_renames (hdocument : document.isTextKeyed = true)
    (hdocument' : document'.isTextKeyed = true) (hcs : Components.ofDocument document = .ok cs)
    (hcs' : Components.ofDocument document' = .ok cs') (h : ofRaw document = .ok d)
    (h' : ofRaw document' = .ok d') (hrenames : cs.Renames cs' σ ρ g) :
    d'.aliases = d.aliases.map fun declared => (σ declared.1, σ declared.2) := by
  have hkeyed := Components.isTextKeyed_of_ofDocument hdocument hcs
  have hkeyed' := Components.isTextKeyed_of_ofDocument hdocument' hcs'
  rw [aliases_eq hdocument hcs h, aliases_eq hdocument' hcs' h', List.map_filterMap]
  refine filterMap_eq_of_forall₂ (((List.forall₂_and_left _ _).mpr
    ⟨fun _ he' => he', ((List.forall₂_and_left _ _).mpr ⟨fun _ he => he, hrenames.entries⟩).flip⟩).imp
    ?_)
  rintro e' e ⟨he', he, hname, -⟩
  have hbody := Raw.field?_text_of_mem hkeyed he
  have hbody' := Raw.field?_text_of_mem hkeyed' he'
  have hmem : e.1.text ∈ cs.names := List.mem_map_of_mem he
  obtain ⟨target, es, hends, _⟩ := exists_shape hdocument hcs h hmem
  obtain ⟨path, hends'⟩ := hrenames.endsAt hkeyed' hends
  rw [← hname] at hends'
  rw [Components.aliasOf?_of_endsAt hbody hends, Components.aliasOf?_of_endsAt hbody' hends', hname]
  simp only [hrenames.target_eq_iff hends]
  split <;> rfl

/-- A component is an alias under its new name if it was one, and for the same component. -/
lemma find?_aliases_of_renames (hdocument : document.isTextKeyed = true)
    (hdocument' : document'.isTextKeyed = true) (hcs : Components.ofDocument document = .ok cs)
    (hcs' : Components.ofDocument document' = .ok cs') (h : ofRaw document = .ok d)
    (h' : ofRaw document' = .ok d') (hrenames : cs.Renames cs' σ ρ g) {name : String}
    (hname : name ∈ cs.names) :
    Fields.find? d'.aliases (σ name) = (Fields.find? d.aliases name).map σ := by
  have hkeyed' := Components.isTextKeyed_of_ofDocument hdocument' hcs'
  obtain ⟨target, es, hends, _⟩ := exists_shape hdocument hcs h hname
  obtain ⟨path, hends'⟩ := hrenames.endsAt hkeyed' hends
  rw [find?_aliases_of_endsAt hdocument hcs h hends,
    find?_aliases_of_endsAt hdocument' hcs' h' hends']
  simp only [hrenames.target_eq_iff hends]
  split <;> rfl

end LoadedDocument

end ApiLint
