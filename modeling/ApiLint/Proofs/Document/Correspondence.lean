import ApiLint.Proofs.Document.Chains
import ApiLint.Proofs.Matching.Departures

/-!
# Corresponding schemas of two documents

Raw schemas of two documents correspond if they are written alike and refer to components whose
shapes correspond again. What a document says about a raw schema besides the names of components, it
then says about the corresponding one: the schemas that govern its literals correspond, and the
literals are read alike.
-/

namespace ApiLint

namespace Entries

/-- The keywords of a raw schema that lead to other raw schemas. -/
def leading : List String :=
  ["$ref", "properties", "items", "additionalProperties", "oneOf", "anyOf", "allOf"]

variable (E : Raw → Raw → Prop)

/-- Mappings with the same keys in the same order, and with corresponding values. A value that is no
mapping is the same. -/
def MappingsAlike (raw raw' : Raw) : Prop :=
  (∃ es es', raw = .dict es ∧ raw' = .dict es'
    ∧ List.Forall₂ (fun e e' => e.1 = e'.1 ∧ E e.2 e'.2) es es')
  ∨ (∀ es, raw ≠ .dict es) ∧ raw' = raw

/-- Lists with corresponding elements. A value that is no list is the same. -/
def ListsAlike (raw raw' : Raw) : Prop :=
  (∃ raws raws', raw = .list raws ∧ raw' = .list raws' ∧ List.Forall₂ E raws raws')
  ∨ (∀ raws, raw ≠ .list raws) ∧ raw' = raw

/-- Raw schemas that are written alike, with corresponding raw schemas below. -/
structure Alike (es es' : Entries) : Prop where
  other : ∀ name ∉ leading, es'.field? name = es.field? name
  properties : MappingsAlike E (es.field "properties") (es'.field "properties")
  items : E (es.field "items") (es'.field "items")
  additional : E (es.field "additionalProperties") (es'.field "additionalProperties")
  composition : ∀ kind : CompositionKind,
    ListsAlike E (es.field kind.keyword) (es'.field kind.keyword)

variable {E} {es es' : Entries}

lemma Alike.field_eq (h : es.Alike E es') {name : String} (hname : name ∉ leading) :
    es'.field name = es.field name := by
  rw [field, field, h.other name hname]

/-- Of mappings that are written alike, corresponding values stand under each name. -/
lemma rel_field?_of_forall₂ (h : List.Forall₂ (fun e e' : Raw × Raw => e.1 = e'.1 ∧ E e.2 e'.2)
    es es') (name : String) : Option.Rel E (es.field? name) (es'.field? name) := by
  induction h with
  | nil => exact .none
  | @cons e e' es es' head _ ih =>
    obtain ⟨key, value⟩ := e
    obtain ⟨key', value'⟩ := e'
    obtain ⟨rfl, hvalue⟩ := head
    by_cases hkey : key = .str name
    · subst hkey
      rw [field?_cons_self, field?_cons_self]
      exact .some hvalue
    · rw [field?_cons_of_ne hkey, field?_cons_of_ne hkey]
      exact ih

lemma Alike.forall₂_properties (h : es.Alike E es') :
    List.Forall₂ (fun e e' : Raw × Raw => e.1 = e'.1 ∧ E e.2 e'.2) (es.mappingAt "properties")
      (es'.mappingAt "properties") := by
  rcases h.properties with ⟨fields, fields', heq, heq', hforall⟩ | ⟨hnot, heq⟩
  · simp only [mappingAt, heq, heq']
    exact hforall
  · unfold mappingAt
    rw [heq]
    split
    · next fields hfields => exact absurd hfields (hnot fields)
    · exact .nil

lemma Alike.forall₂_composition (h : es.Alike E es') (kind : CompositionKind) :
    List.Forall₂ E (es.listAt kind.keyword) (es'.listAt kind.keyword) := by
  rcases h.composition kind with ⟨raws, raws', heq, heq', hforall⟩ | ⟨hnot, heq⟩
  · simp only [listAt, heq, heq']
    exact hforall
  · unfold listAt
    rw [heq]
    split
    · next raws hraws => exact absurd hraws (hnot raws)
    · exact .nil

/-- Raw schemas stay alike under another relation that follows for all that is smaller. -/
lemma Alike.of_smaller {F : Raw → Raw → Prop} (h : es.Alike E es')
    (hnull : ∀ raw', E .null raw' → F .null raw')
    (hsmaller : ∀ raw raw', sizeOf raw < sizeOf es → E raw raw' → F raw raw') : es.Alike F es' := by
  have hfield : ∀ name raw', E (es.field name) raw' → F (es.field name) raw' := by
    intro name raw' hE
    -- A field that is not written is null, which is not smaller than every mapping.
    by_cases hvalue : es.field name = .null
    · rw [hvalue] at hE ⊢
      exact hnull raw' hE
    · exact hsmaller _ _ (sizeOf_field_lt hvalue) hE
  refine ⟨h.other, ?_, hfield _ _ h.items, hfield _ _ h.additional, ?_⟩
  · rcases h.properties with ⟨fields, fields', heq, heq', hforall⟩ | hsame
    · refine .inl ⟨fields, fields', heq, heq', ?_⟩
      refine ((List.forall₂_and_left _ _).mpr ⟨fun _ he => he, hforall⟩).imp ?_
      rintro e e' ⟨he, hkey, hE⟩
      have hmem : e ∈ es.mappingAt "properties" := by rwa [mappingAt, heq]
      exact ⟨hkey, hsmaller _ _ (sizeOf_lt_of_mem_mappingAt hmem) hE⟩
    · exact .inr hsame
  · intro kind
    rcases h.composition kind with ⟨raws, raws', heq, heq', hforall⟩ | hsame
    · refine .inl ⟨raws, raws', heq, heq', ?_⟩
      refine ((List.forall₂_and_left _ _).mpr ⟨fun _ hraw => hraw, hforall⟩).imp ?_
      rintro raw raw' ⟨hraw, hE⟩
      have hmem : raw ∈ es.listAt kind.keyword := by rwa [listAt, heq]
      exact hsmaller _ _ (sizeOf_lt_of_mem_listAt hmem) hE
    · exact .inr hsame

/-- The raw schemas of a member correspond. -/
lemma Alike.memberSchema (h : es.Alike E es') (name : String) :
    E (es.memberSchema name) (es'.memberSchema name) := by
  have hproperty := rel_field?_of_forall₂ h.forall₂_properties name
  rw [Entries.memberSchema, Entries.memberSchema]
  generalize field? (es.mappingAt "properties") name = found at hproperty ⊢
  generalize field? (es'.mappingAt "properties") name = found' at hproperty ⊢
  cases hproperty with
  | none => exact h.additional
  | some hraw => exact hraw

end Entries

lemma Raw.exists_dict_of_isMapping {raw : Raw} (h : raw.isMapping = true) :
    ∃ es, raw = .dict es := by
  cases raw with
  | dict es => exact ⟨es, rfl⟩
  | _ => cases h

namespace Components

/-- Raw schemas of two documents in the same form: both are no schemas, and the same; or both are
references, to components with related names; or both are in line, and written alike. -/
inductive SameForm (cs cs' : Components) (ρ : String → String → Prop) (E : Raw → Raw → Prop) :
    Raw → Raw → Prop
  | other {raw : Raw} (h : raw.isMapping = false) : SameForm cs cs' ρ E raw raw
  | reference {raw raw' : Raw} {name name' : String} (h : cs.referredName? raw = some name)
      (h' : cs'.referredName? raw' = some name') (hname : ρ name name') : SameForm cs cs' ρ E raw raw'
  | inline {es es' : Entries} (h : es.field? "$ref" = none) (h' : es'.field? "$ref" = none)
      (halike : es.Alike E es') : SameForm cs cs' ρ E (.dict es) (.dict es')

/-- A correspondence of the raw schemas of two documents, given together with one of the names of
their components. -/
structure Corresponds (cs cs' : Components) (ρ : String → String → Prop) (E : Raw → Raw → Prop) :
    Prop where
  null : E .null .null
  form : ∀ {raw raw'}, E raw raw' → SameForm cs cs' ρ E raw raw'
  ends : ∀ {name name'}, ρ name name' → ∃ target target' es es',
    cs.EndsAt name target (.dict es) ∧ cs'.EndsAt name' target' (.dict es')
      ∧ E (.dict es) (.dict es')

lemma EndsAt.plain {cs : Components} {name target : String} {es : Entries}
    (h : cs.EndsAt name target (.dict es)) : es.field? "$ref" = none := by
  obtain ⟨steps, h⟩ := h
  exact h.target_found.2

lemma exists_dict_of_referredName? {cs : Components} {raw : Raw} {name : String}
    (h : cs.referredName? raw = some name) :
    ∃ (es : Entries) (text : String), raw = .dict es ∧ es.field? "$ref" = some (.str text)
      ∧ cs.referenceName? text = some name := by
  obtain ⟨text, hreference, hname⟩ := reference?_of_referredName? h
  cases raw with
  | dict es => exact ⟨es, text, rfl, hreference, hname⟩
  | _ => cases hreference

lemma reference?_eq_none {raw : Raw} (h : raw.isMapping = false) : reference? raw = none := by
  cases raw with
  | dict es => cases h
  | _ => rfl

lemma referredName?_eq_none {cs : Components} {raw : Raw} (h : raw.isMapping = false) :
    cs.referredName? raw = none := by
  rw [referredName?, reference?_eq_none h]

lemma referredName?_inline {cs : Components} {es : Entries} (h : es.field? "$ref" = none) :
    cs.referredName? (.dict es) = none := by
  rw [referredName?, reference?, h]

namespace Corresponds

variable {cs cs' : Components} {ρ : String → String → Prop} {E : Raw → Raw → Prop} {raw raw' : Raw}

/-- Schemas in line that correspond are written alike. -/
lemma alike (h : cs.Corresponds cs' ρ E) {es es' : Entries} (hraw : E (.dict es) (.dict es'))
    (hplain : es.field? "$ref" = none) : es.Alike E es' := by
  cases h.form hraw with
  | other hmapping => cases hmapping
  | reference hname =>
    obtain ⟨_, _, heq, hreference, _⟩ := exists_dict_of_referredName? hname
    cases heq
    simp [hplain] at hreference
  | inline _ _ halike => exact halike

/-- Only mappings correspond to anything but themselves, and then to mappings. -/
lemma eq_or_dict (h : cs.Corresponds cs' ρ E) (hraw : E raw raw') :
    raw' = raw ∨ ∃ es es', raw = .dict es ∧ raw' = .dict es' := by
  cases h.form hraw with
  | other => exact .inl rfl
  | reference hname hname' =>
    obtain ⟨es, _, rfl, _⟩ := exists_dict_of_referredName? hname
    obtain ⟨es', _, rfl, _⟩ := exists_dict_of_referredName? hname'
    exact .inr ⟨es, es', rfl, rfl⟩
  | @inline es es' => exact .inr ⟨es, es', rfl, rfl⟩

lemma isMapping_eq (h : cs.Corresponds cs' ρ E) (hraw : E raw raw') :
    raw'.isMapping = raw.isMapping := by
  rcases h.eq_or_dict hraw with rfl | ⟨_, _, rfl, rfl⟩ <;> rfl

lemma isNull_eq (h : cs.Corresponds cs' ρ E) (hraw : E raw raw') : raw'.isNull = raw.isNull := by
  rcases h.eq_or_dict hraw with rfl | ⟨_, _, rfl, rfl⟩ <;> rfl

lemma rel_inline? (h : cs.Corresponds cs' ρ E) (hraw : E raw raw') :
    Option.Rel (fun es es' => E (.dict es) (.dict es') ∧ Entries.Alike E es es') raw.inline?
      raw'.inline? := by
  cases h.form hraw with
  | other hmapping =>
    cases raw with
    | dict es => cases hmapping
    | _ => exact .none
  | reference hname hname' =>
    obtain ⟨es, _, rfl, hreference, _⟩ := exists_dict_of_referredName? hname
    obtain ⟨es', _, rfl, hreference', _⟩ := exists_dict_of_referredName? hname'
    rw [Raw.inline?, Raw.inline?, hreference, hreference']
    exact .none
  | inline hplain hplain' halike =>
    rw [Raw.inline?_eq_some_iff.mpr ⟨rfl, hplain⟩, Raw.inline?_eq_some_iff.mpr ⟨rfl, hplain'⟩]
    exact .some ⟨hraw, halike⟩

/-- Corresponding raw schemas are governed by schemas that are written alike, or by none. -/
lemma rel_governing? (h : cs.Corresponds cs' ρ E) (hraw : E raw raw') :
    Option.Rel (Entries.Alike E) (cs.governing? raw) (cs'.governing? raw') := by
  cases h.form hraw with
  | other hmapping =>
    rw [governing?_eq_none hmapping, governing?_eq_none hmapping]
    exact .none
  | reference hname hname' hnames =>
    obtain ⟨target, target', es, es', hends, hends', hshape⟩ := h.ends hnames
    rw [governing?_of_endsAt hname hends, governing?_of_endsAt hname' hends']
    exact .some (h.alike hshape hends.plain)
  | inline hplain hplain' halike =>
    rw [governing?_inline hplain, governing?_inline hplain']
    exact .some halike

end Corresponds

/-! ### Literals -/

/-- A relation of the raw schemas of two documents under which literals are read alike: schemas are
related to schemas, and those that govern related ones are written alike. -/
structure ReadsAlike (cs cs' : Components) (E : Raw → Raw → Prop) : Prop where
  null : E .null .null
  isNull_eq : ∀ {raw raw'}, E raw raw' → raw'.isNull = raw.isNull
  isMapping_eq : ∀ {raw raw'}, E raw raw' → raw'.isMapping = raw.isMapping
  rel_governing? : ∀ {raw raw'}, E raw raw' →
    Option.Rel (Entries.Alike E) (cs.governing? raw) (cs'.governing? raw')

lemma Corresponds.readsAlike {cs cs' : Components} {ρ : String → String → Prop}
    {E : Raw → Raw → Prop} (h : cs.Corresponds cs' ρ E) : cs.ReadsAlike cs' E :=
  ⟨h.null, h.isNull_eq, h.isMapping_eq, h.rel_governing?⟩

namespace ReadsAlike

variable {cs cs' : Components} {E : Raw → Raw → Prop}

lemma itemSchema (h : cs.ReadsAlike cs' E) {governing governing' : Option Entries}
    (hgoverning : Option.Rel (Entries.Alike E) governing governing') :
    E (Components.itemSchema governing) (Components.itemSchema governing') := by
  cases hgoverning with
  | none => exact h.null
  | some halike => exact halike.items

/-- The raw schemas of a member correspond, or looking for either is the same error. -/
lemma memberSchema (h : cs.ReadsAlike cs' E) {governing governing' : Option Entries}
    (hgoverning : Option.Rel (Entries.Alike E) governing governing') (name : String) :
    (∃ e, Components.memberSchema governing name = .error e
        ∧ Components.memberSchema governing' name = .error e)
      ∨ ∃ raw raw', Components.memberSchema governing name = .ok raw
        ∧ Components.memberSchema governing' name = .ok raw' ∧ E raw raw' := by
  cases hgoverning with
  | none => exact .inr ⟨.null, .null, rfl, rfl, h.null⟩
  | @some es es' halike =>
    rw [Components.memberSchema, Components.memberSchema]
    rcases halike.properties with ⟨fields, fields', heq, heq', hforall⟩ | ⟨hnot, heq⟩
    · rw [heq, heq', propertySchema?, propertySchema?]
      have hproperty := Entries.rel_field?_of_forall₂ hforall name
      generalize Entries.field? fields name = found at hproperty ⊢
      generalize Entries.field? fields' name = found' at hproperty ⊢
      cases hproperty with
      | none => exact .inr ⟨_, _, rfl, rfl, halike.additional⟩
      | some hraw => exact .inr ⟨_, _, rfl, rfl, hraw⟩
    · rw [heq]
      cases hfound : propertySchema? name (es.field "properties") with
      | error e => exact .inl ⟨e, rfl, rfl⟩
      | ok found =>
        rcases propertySchema?_eq_ok hfound with ⟨fields, hfields, _⟩ | ⟨_, rfl⟩
        · exact absurd hfields (hnot fields)
        · exact .inr ⟨_, _, rfl, rfl, halike.additional⟩

lemma plainLiteral_eq {governing governing' : Option Entries}
    (hgoverning : Option.Rel (Entries.Alike E) governing governing') (raw : Raw) :
    plainLiteral governing' raw = plainLiteral governing raw := by
  cases hgoverning with
  | none => rfl
  | some halike =>
    simp only [plainLiteral, Option.map_some, Option.getD_some]
    rw [halike.field_eq (by decide), halike.field_eq (by decide)]

mutual

/-- A literal is read alike under corresponding raw schemas. -/
lemma literalAt_eq (h : cs.ReadsAlike cs' E) : ∀ (raw : Raw) {schema schema' : Raw}
    (depth : Nat), E schema schema' →
    cs'.literalAt schema' depth raw = cs.literalAt schema depth raw
  | .list raws, schema, schema', depth, hschema => by
    rw [literalAt, literalAt, h.literalItems_eq raws _ (h.itemSchema (h.rel_governing? hschema))]
  | .dict es, schema, schema', depth, hschema => by
    rw [literalAt, literalAt, h.literalMembers_eq es _ _ (h.rel_governing? hschema)]
  | .null, _, _, _, hschema | .bool _, _, _, _, hschema | .int _, _, _, _, hschema
  | .float _, _, _, _, hschema | .str _, _, _, _, hschema | .bytes _, _, _, _, hschema
  | .date _, _, _, _, hschema | .dateTime _, _, _, _, hschema | .set _, _, _, _, hschema
  | .pair _ _, _, _, _, hschema => by
    rw [literalAt_plain (by simp) (by simp), literalAt_plain (by simp) (by simp),
      plainLiteral_eq (h.rel_governing? hschema)]

lemma literalItems_eq (h : cs.ReadsAlike cs' E) : ∀ (raws : List Raw) {schema schema' : Raw}
    (depth : Nat), E schema schema' →
    cs'.literalItems schema' depth raws = cs.literalItems schema depth raws
  | [], _, _, _, _ => by
    rw [literalItems, literalItems]
  | raw :: raws, _, _, depth, hschema => by
    rw [literalItems, literalItems, h.literalAt_eq raw depth hschema,
      h.literalItems_eq raws depth hschema]

lemma literalMembers_eq (h : cs.ReadsAlike cs' E) : ∀ (es : List (Raw × Raw))
    {governing governing' : Option Entries} (depth : Nat) (before : Fields Literal),
    Option.Rel (Entries.Alike E) governing governing' →
    cs'.literalMembers governing' depth before es = cs.literalMembers governing depth before es
  | [], _, _, _, _, _ => by
    rw [literalMembers, literalMembers]
  | (key, raw) :: es, _, _, depth, before, hgoverning => by
    rw [literalMembers, literalMembers]
    apply bind_congr_except
    intro _ _
    rcases h.memberSchema hgoverning key.text with
      ⟨e, herror, herror'⟩ | ⟨schema, schema', hfound, hfound', hschema⟩
    · rw [herror, herror']
      simp only [bind, Except.bind]
    · rw [hfound, hfound']
      change (do let member ← cs'.literalAt schema' depth raw; _)
        = (do let member ← cs.literalAt schema depth raw; _)
      rw [h.literalAt_eq raw depth hschema]
      apply bind_congr_except
      exact fun member _ => h.literalMembers_eq es depth _ hgoverning

end

/-- The literals of schemas in line are read alike. -/
lemma literal_eq (h : cs.ReadsAlike cs' E) {es es' : Entries} (hes : E (.dict es) (.dict es'))
    (raw : Raw) : cs'.literal es' raw = cs.literal es raw :=
  h.literalAt_eq raw 0 hes

end ReadsAlike

end Components

end ApiLint
