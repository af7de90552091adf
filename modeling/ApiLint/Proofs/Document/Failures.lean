import ApiLint.Proofs.Document.Envelope
import ApiLint.Proofs.Document.Rendering
import ApiLint.Proofs.Document.Shown
import ApiLint.Proofs.Number.Nearest
import ApiLint.Proofs.Outcome
import ApiLint.Proofs.Schema.Sound

/-!
# What can go wrong with an admitted document

If the envelope of a document has no issues, then building its schemas can fail in ways that a
linter reports, and in three others: an integer is beyond binary64, an alias leads to a component
whose key is no text, and the version has a number with too many digits. Every part that is read of
such a document has the shape that the reader expects.
-/

namespace ApiLint

/-! ### Conversions -/

/-- An integer beyond binary64 is a part of the value. -/
def Raw.HoldsTooLarge (raw : Raw) : Prop := ∃ n, .int n ∈ raw.parts ∧ Binary64.ofInt? n = none

lemma Raw.HoldsTooLarge.mono {raw raw' : Raw} (h : raw.HoldsTooLarge)
    (hparts : raw.parts ⊆ raw'.parts) : raw'.HoldsTooLarge := by
  obtain ⟨n, hn, hlarge⟩ := h
  exact ⟨n, hparts hn, hlarge⟩

/-- An integer in range is short enough to be written. -/
lemma Number.isWritable_of_ofInt? {n : Int} {x : Binary64} (h : Binary64.ofInt? n = some x) :
    Number.isWritable n = true := by
  rw [Number.isWritable, decide_eq_true_eq]
  have hpow : ∀ k digits : Nat, k ≤ digits → 2 ^ k ≤ Nat.pow 10 digits := fun k digits hk =>
    (Nat.pow_le_pow_left (by decide) k).trans (Nat.pow_le_pow_right (by decide) hk)
  exact (Binary64.natAbs_lt_of_ofInt? h).trans_le (hpow 1024 _ (by decide))

/-- So a value that cannot be written holds one that is not. -/
lemma Raw.holdsTooLarge_of_isWritable {raw : Raw} (h : raw.isWritable = false) :
    raw.HoldsTooLarge := by
  by_contra hnone
  have hwritable : raw.isWritable = true := by
    apply Raw.isWritable_of_forall_int
    intro n hn
    obtain ⟨x, hx⟩ : ∃ x, Binary64.ofInt? n = some x :=
      Option.ne_none_iff_exists'.mp fun hlarge => hnone ⟨n, hn, hlarge⟩
    exact Number.isWritable_of_ofInt? hx
  simp [h] at hwritable

lemma Raw.holdsTooLarge_of_requireTexts {rs : List Raw} {e : NumberError}
    (h : Raw.requireTexts rs = .error e) : ∃ r ∈ rs, r.HoldsTooLarge := by
  by_contra hnone
  have hall : Raw.requireTexts rs = .ok () := Raw.requireTexts_eq_ok_iff.mpr fun r hr => by
    by_contra hwritable
    exact hnone ⟨r, hr, Raw.holdsTooLarge_of_isWritable (by simpa using hwritable)⟩
  rw [h] at hall
  cases hall

/-- A number keeps a value from being converted only if it is too large. -/
def Raw.Converts (raw : Raw) (e : ConversionError) : Prop :=
  (LoadError.literal e).isReported = true ∨ raw.HoldsTooLarge

lemma Raw.Converts.mono {raw raw' : Raw} {e : ConversionError} (h : raw.Converts e)
    (hparts : raw.parts ⊆ raw'.parts) : raw'.Converts e :=
  h.imp_right fun hlarge => hlarge.mono hparts

namespace Literal

lemma onlyFails_ofIntAs (kind : ScalarKind) (n : Int) :
    OnlyFails (Raw.int n).Converts (ofIntAs kind n) := by
  rw [ofIntAs]
  split
  · exact .ok _
  · next hnone => exact .error (.inr ⟨n, Raw.mem_parts_self _, hnone⟩)

lemma onlyFails_ofScalar (raw type format : Raw) :
    OnlyFails raw.Converts (ofScalar raw type format) := by
  cases raw with
  | int n =>
    rw [ofScalar, ofInt]
    repeat' split
    · exact .ok _
    · exact onlyFails_ofIntAs .float n
    · exact onlyFails_ofIntAs .double n
    · exact .ok _
    · exact .ok _
  | str s =>
    simp only [ofScalar, ofText]
    split
    · split
      · exact .ok _
      · split
        · exact .ok _
        · exact .error (.inl rfl)
    · exact .ok _
  | date d =>
    rw [ofScalar]
    split <;> exact .ok _
  | null | bool _ | float _ | dateTime _ => exact .ok _
  | bytes _ | list _ | pair _ _ | set _ | dict _ => exact .error (.inl rfl)

mutual

/-- A conversion fails in a way that is not reported only if an integer in the value is too large.
-/
lemma onlyFails_ofRaw : ∀ (raw type format : Raw), OnlyFails raw.Converts (ofRaw type format raw)
  | .list items, _, _ => by
    rw [ofRaw]
    apply OnlyFails.bind (onlyFails_ofItems items fun x hx => Raw.parts_subset_of_mem_list hx)
    exact fun _ _ => .ok _
  | .pair k v, _, _ => by
    have hparts : k.parts ⊆ (Raw.pair k v).parts ∧ v.parts ⊆ (Raw.pair k v).parts := by
      simp only [Raw.parts]
      constructor
      · exact fun part hpart => List.mem_cons_of_mem _ (List.mem_append_left _ hpart)
      · exact fun part hpart => List.mem_cons_of_mem _ (List.mem_append_right _ hpart)
    rw [ofRaw]
    apply OnlyFails.bind
    · exact fun e he => (onlyFails_ofRaw k _ _ e he).mono hparts.1
    · intro _ _
      apply OnlyFails.bind
      · exact fun e he => (onlyFails_ofRaw v _ _ e he).mono hparts.2
      · exact fun _ _ => .ok _
  | .dict es, _, _ => by
    rw [ofRaw]
    apply OnlyFails.bind (onlyFails_ofEntries es [] fun e he => Raw.parts_subset_of_mem_dict he)
    exact fun _ _ => .ok _
  | .null, _, _ | .bool _, _, _ | .int _, _, _ | .float _, _, _ | .str _, _, _ | .bytes _, _, _
  | .date _, _, _ | .dateTime _, _, _ | .set _, _, _ => onlyFails_ofScalar _ _ _

lemma onlyFails_ofItems : ∀ (raws : List Raw) {whole : Raw}, (∀ x ∈ raws, x.parts ⊆ whole.parts) →
    OnlyFails whole.Converts (ofItems raws)
  | [], _, _ => .ok _
  | raw :: raws, _, h => by
    obtain ⟨hraw, hraws⟩ := List.forall_mem_cons.mp h
    rw [ofItems]
    apply OnlyFails.bind
    · exact fun e he => (onlyFails_ofRaw raw _ _ e he).mono hraw
    · intro _ _
      apply OnlyFails.bind (onlyFails_ofItems raws hraws)
      exact fun _ _ => .ok _

lemma onlyFails_ofEntries : ∀ (es : List (Raw × Raw)) (before : Fields Literal) {whole : Raw},
    (∀ e ∈ es, e.1.parts ⊆ whole.parts ∧ e.2.parts ⊆ whole.parts) →
    OnlyFails whole.Converts (ofEntries before es)
  | [], _, _, _ => .ok _
  | (k, v) :: es, before, _, h => by
    obtain ⟨⟨hkey, hvalue⟩, hes⟩ := List.forall_mem_cons.mp h
    rw [ofEntries]
    apply OnlyFails.bind
    · apply OnlyFails.mapError
      intro e he
      obtain ⟨r, hr, hlarge⟩ := Raw.holdsTooLarge_of_requireTexts he
      rw [List.mem_singleton.mp hr] at hlarge
      exact .inr (hlarge.mono hkey)
    · intro _ _
      apply OnlyFails.bind
      · exact fun e he => (onlyFails_ofRaw v _ _ e he).mono hvalue
      · exact fun _ _ => onlyFails_ofEntries es _ hes

end

end Literal

/-! ### What is read -/

/-- The raw schemas below a raw schema are parts of it. -/
lemma Entries.parts_subset_of_mem_outline {es : Entries} {e : Edge × Raw}
    (he : e ∈ es.outline.children) : e.2.parts ⊆ (Raw.dict es).parts := by
  rcases mem_outline_cases he with ⟨x, hx, heq⟩ | ⟨name, heq, hne⟩ | ⟨name, hmem⟩
  · rw [← heq]
    exact List.Subset.trans (Raw.parts_subset_of_mem_dict hx).2
      (Raw.parts_subset_of_field? (field?_of_mem_mappingAt hx))
  · rw [← heq] at hne ⊢
    exact Raw.parts_subset_of_field hne
  · exact List.Subset.trans (Raw.parts_subset_of_mem_list hmem)
      (Raw.parts_subset_of_field? (field?_of_mem_listAt hmem))

namespace Components

/-- What can go wrong while components are loaded: something that a linter reports, an integer that
is too large, or an alias to a component whose key is no text. -/
inductive Fails (cs : Components) : LoadError → Prop
  | reported {e : LoadError} (h : e.isReported = true) : Fails cs e
  | number {e : LoadError} (h : (Raw.dict cs.entries).HoldsTooLarge) : Fails cs e
  | key {e : Raw × Raw} {name : String} (he : e ∈ cs.entries)
      (hname : cs.referredName? e.2 = some name) (hmem : name ∈ cs.names)
      (hnone : Entries.field? cs.entries name = none) : Fails cs (.componentKey name)

variable {cs : Components}

lemma onlyFails_plainLiteral {governing : Option Entries} {raw : Raw}
    (hparts : raw.parts ⊆ (Raw.dict cs.entries).parts) :
    OnlyFails cs.Fails (plainLiteral governing raw) := by
  apply OnlyFails.mapError
  intro e he
  rcases Literal.onlyFails_ofRaw raw _ _ e he with hreported | hlarge
  · exact .reported hreported
  · exact .number (hlarge.mono hparts)

/-- A name has no text only if an integer in it is too large. -/
lemma onlyFails_requireNames {rs : List Raw}
    (hparts : ∀ r ∈ rs, r.parts ⊆ (Raw.dict cs.entries).parts) :
    OnlyFails cs.Fails (requireNames rs) := by
  apply OnlyFails.mapError
  intro e he
  obtain ⟨r, hr, hlarge⟩ := Raw.holdsTooLarge_of_requireTexts he
  exact .number (hlarge.mono (hparts r hr))

/-- A value that is admitted as a schema if it is a mapping. -/
def IsSchema (raw : Raw) : Prop := ∀ es, raw = .dict es → Envelope.IsAdmitted raw

lemma isSchema_null : IsSchema .null := by
  intro es h
  cases h

/-- A field that is not written is null, which is no mapping. -/
lemma isSchema_field {es : Entries} {name : String}
    (h : ∀ value, es.field? name = some value → IsSchema value) : IsSchema (es.field name) := by
  cases hfield : es.field? name with
  | none =>
    rw [Entries.field, hfield]
    exact isSchema_null
  | some value =>
    rw [Entries.field_of_field? hfield]
    exact h value hfield

/-- What governs the literals of an admitted schema is admitted. -/
lemma isAdmitted_governing? (hcs : ∀ e ∈ cs.entries, Envelope.IsAdmitted e.2) {raw : Raw}
    {es : Entries} (hraw : IsSchema raw) (h : cs.governing? raw = some es) :
    Envelope.IsAdmitted (.dict es) := by
  rw [governing?] at h
  generalize cs.entries.length + 2 = steps at h
  generalize ([] : List String) = seen at h
  induction steps generalizing seen raw with
  | zero => cases h
  | succ steps ih =>
    cases raw with
    | dict fields =>
      rw [governingFrom] at h
      split at h
      · cases h
        exact hraw es rfl
      · split at h
        · cases h
        · split at h
          · exact ih (isSchema_field fun _ hvalue _ _ => hcs _ (Entries.mem_of_field? hvalue)) _ h
          · cases h
      · cases h
    | _ => cases h

lemma isSchema_itemSchema {governing : Option Entries}
    (h : ∀ es, governing = some es → Envelope.IsAdmitted (.dict es)) :
    IsSchema (itemSchema governing) := by
  cases governing with
  | none => exact isSchema_null
  | some es => exact isSchema_field fun _ hvalue _ _ => Envelope.isAdmitted_of_items (h es rfl) hvalue

lemma isSchema_additional {es : Entries} (h : Envelope.IsAdmitted (.dict es)) :
    IsSchema (es.field "additionalProperties") := by
  refine isSchema_field fun value hvalue fields heq => ?_
  rcases Envelope.isAdmitted_of_additional h hvalue with ⟨b, rfl⟩ | hadmitted
  · cases heq
  · exact hadmitted

/-- A member is under the property of its name, or else under the additional properties. -/
lemma memberSchema_of_properties {es entries : Entries}
    (h : es.field "properties" = .null ∧ entries = [] ∨ es.field "properties" = .dict entries)
    (name : String) : memberSchema (some es) name
      = .ok ((entries.field? name).getD (es.field "additionalProperties")) := by
  rcases h with ⟨hnull, rfl⟩ | hdict
  · rw [memberSchema, hnull]
    rfl
  · rw [memberSchema, hdict]
    dsimp only [propertySchema?]
    cases Entries.field? entries name <;> rfl

lemma exists_memberSchema {governing : Option Entries}
    (h : ∀ es, governing = some es → Envelope.IsAdmitted (.dict es)) (name : String) :
    ∃ schema, memberSchema governing name = .ok schema ∧ IsSchema schema := by
  cases governing with
  | none => exact ⟨.null, rfl, isSchema_null⟩
  | some es =>
    have hadmitted := h es rfl
    cases hproperties : es.field? "properties" with
    | none =>
      have hnull : es.field "properties" = .null := by rw [Entries.field, hproperties]; rfl
      exact ⟨_, memberSchema_of_properties (.inl ⟨hnull, rfl⟩) name, isSchema_additional hadmitted⟩
    | some value =>
      obtain ⟨entries, rfl, hall⟩ := Envelope.exists_dict_of_properties hadmitted hproperties
      have hdict := Entries.field_of_field? hproperties
      refine ⟨_, memberSchema_of_properties (.inr hdict) name, ?_⟩
      cases hmember : Entries.field? entries name with
      | none => exact isSchema_additional hadmitted
      | some schema => exact fun _ _ => hall _ (Entries.mem_of_field? hmember)

mutual

/-- A literal of an admitted schema fails to be read in the expected ways only. -/
lemma onlyFails_literalAt (hcs : ∀ e ∈ cs.entries, Envelope.IsAdmitted e.2) : ∀ (raw : Raw)
    {schema : Raw} (depth : Nat), IsSchema schema → raw.parts ⊆ (Raw.dict cs.entries).parts →
    OnlyFails cs.Fails (cs.literalAt schema depth raw)
  | .list items, schema, depth, hschema, hparts => by
    rw [literalAt]
    split
    · exact .error (.reported rfl)
    · apply OnlyFails.bind
      · apply onlyFails_literalItems hcs items
        · apply isSchema_itemSchema
          exact fun es hes => isAdmitted_governing? hcs hschema hes
        · exact fun x hx => List.Subset.trans (Raw.parts_subset_of_mem_list hx) hparts
      · exact fun _ _ => .ok _
  | .dict es, schema, depth, hschema, hparts => by
    rw [literalAt]
    split
    · exact .error (.reported rfl)
    · apply OnlyFails.bind
      · apply onlyFails_literalMembers hcs es
        · exact fun es hes => isAdmitted_governing? hcs hschema hes
        · intro e he
          obtain ⟨hkey, hvalue⟩ := Raw.parts_subset_of_mem_dict he
          exact ⟨List.Subset.trans hkey hparts, List.Subset.trans hvalue hparts⟩
      · exact fun _ _ => .ok _
  | .null, _, _, _, h | .bool _, _, _, _, h | .int _, _, _, _, h | .float _, _, _, _, h
  | .str _, _, _, _, h | .bytes _, _, _, _, h | .date _, _, _, _, h | .dateTime _, _, _, _, h
  | .set _, _, _, _, h | .pair _ _, _, _, _, h => by
    rw [literalAt_plain (by simp) (by simp)]
    split
    · exact .error (.reported rfl)
    · exact onlyFails_plainLiteral h

lemma onlyFails_literalItems (hcs : ∀ e ∈ cs.entries, Envelope.IsAdmitted e.2) : ∀ (raws : List Raw)
    {schema : Raw} (depth : Nat), IsSchema schema →
    (∀ x ∈ raws, x.parts ⊆ (Raw.dict cs.entries).parts) →
    OnlyFails cs.Fails (cs.literalItems schema depth raws)
  | [], _, _, _, _ => by
    rw [literalItems]
    exact .ok _
  | raw :: raws, _, depth, hschema, hparts => by
    obtain ⟨hraw, hraws⟩ := List.forall_mem_cons.mp hparts
    rw [literalItems]
    apply OnlyFails.bind (onlyFails_literalAt hcs raw depth hschema hraw)
    intro _ _
    apply OnlyFails.bind (onlyFails_literalItems hcs raws depth hschema hraws)
    exact fun _ _ => .ok _

lemma onlyFails_literalMembers (hcs : ∀ e ∈ cs.entries, Envelope.IsAdmitted e.2) :
    ∀ (es : List (Raw × Raw)) {governing : Option Entries} (depth : Nat) (before : Fields Literal),
    (∀ es, governing = some es → Envelope.IsAdmitted (.dict es)) →
    (∀ e ∈ es, e.1.parts ⊆ (Raw.dict cs.entries).parts
      ∧ e.2.parts ⊆ (Raw.dict cs.entries).parts) →
    OnlyFails cs.Fails (cs.literalMembers governing depth before es)
  | [], _, _, _, _, _ => by
    rw [literalMembers]
    exact .ok _
  | (key, raw) :: es, _, depth, _, hgoverning, hparts => by
    obtain ⟨⟨hkey, hraw⟩, hes⟩ := List.forall_mem_cons.mp hparts
    obtain ⟨schema, heq, hschema⟩ := exists_memberSchema hgoverning key.text
    rw [literalMembers]
    apply OnlyFails.bind (onlyFails_requireNames (by simpa using hkey))
    intro _ _
    refine OnlyFails.bind_ok heq ?_
    apply OnlyFails.bind (onlyFails_literalAt hcs raw depth hschema hraw)
    exact fun _ _ => onlyFails_literalMembers hcs es depth _ hgoverning hes

end

lemma onlyFails_literals (hcs : ∀ e ∈ cs.entries, Envelope.IsAdmitted e.2) {es : Entries}
    (hes : Envelope.IsAdmitted (.dict es)) {raws : List Raw}
    (hparts : ∀ x ∈ raws, x.parts ⊆ (Raw.dict cs.entries).parts) :
    OnlyFails cs.Fails (cs.literals es raws) := by
  induction raws with
  | nil => exact .ok _
  | cons raw raws ih =>
    obtain ⟨hraw, hraws⟩ := List.forall_mem_cons.mp hparts
    rw [literals]
    apply OnlyFails.bind (onlyFails_literalAt hcs raw 0 (fun _ _ => hes) hraw)
    intro _ _
    apply OnlyFails.bind (ih hraws)
    exact fun _ _ => .ok _

/-- Where there can only be a list, the elements are read. -/
lemma exists_elementsOf {es : Entries} {name : String}
    (h : ∀ value, es.field? name = some value → ∃ items, value = .list items) :
    ∃ raws, elementsOf (es.field name) = .ok raws
      ∧ ∀ x ∈ raws, x.parts ⊆ (Raw.dict es).parts := by
  cases hfield : es.field? name with
  | none =>
    refine ⟨[], ?_, by simp⟩
    simp [Entries.field, hfield, elementsOf, Raw.isVoid]
  | some value =>
    obtain ⟨items, rfl⟩ := h value hfield
    rw [Entries.field_of_field? hfield]
    cases items with
    | nil => exact ⟨[], rfl, by simp⟩
    | cons first items =>
      refine ⟨first :: items, rfl, ?_⟩
      intro x hx
      exact List.Subset.trans (Raw.parts_subset_of_mem_list hx) (Raw.parts_subset_of_field? hfield)

lemma onlyFails_slot {P : LoadError → Prop} {es : Entries} {name : String}
    {set : Literal → SchemaNode Schema} {kept : SchemaNode Schema}
    {next : SchemaNode Schema → Except LoadError (SchemaNode Schema)}
    (hliteral : ∀ raw, es.field? name = some raw → OnlyFails P (cs.literal es raw))
    (hnext : ∀ node, OnlyFails P (next node)) :
    OnlyFails P (match es.field? name with
      | some raw => do next (← pure (set (← cs.literal es raw)))
      | none => do next (← pure kept)) := by
  cases hfield : es.field? name with
  | none => exact hnext kept
  | some raw =>
    apply OnlyFails.bind (hliteral raw hfield)
    exact fun value _ => hnext (set value)

lemma onlyFails_withLiterals (hcs : ∀ e ∈ cs.entries, Envelope.IsAdmitted e.2) {es : Entries}
    (hes : Envelope.IsAdmitted (.dict es)) (hparts : (Raw.dict es).parts ⊆ (Raw.dict cs.entries).parts)
    (node : SchemaNode Schema) : OnlyFails cs.Fails (cs.withLiterals es node) := by
  have hliteral : ∀ name raw, es.field? name = some raw → OnlyFails cs.Fails (cs.literal es raw) := by
    intro name raw hfield
    apply onlyFails_literalAt hcs raw 0 (fun _ _ => hes)
    exact List.Subset.trans (Raw.parts_subset_of_field? hfield) hparts
  rw [withLiterals]
  apply onlyFails_slot (hliteral "default")
  intro first
  apply onlyFails_slot (hliteral "example")
  intro second
  obtain ⟨raws, hraws, hall⟩ :=
    exists_elementsOf fun value hvalue => Envelope.exists_list_of_enum hes hvalue
  refine OnlyFails.bind_ok hraws ?_
  apply OnlyFails.bind
  · apply onlyFails_literals hcs hes
    exact fun x hx => List.Subset.trans (hall x hx) hparts
  · exact fun _ _ => .ok _

lemma onlyFails_discriminatorOf {es : Entries} (hes : Envelope.IsAdmitted (.dict es))
    (hparts : (Raw.dict es).parts ⊆ (Raw.dict cs.entries).parts) (pointer : Pointer) :
    OnlyFails cs.Fails (discriminatorOf pointer (es.field "discriminator")) := by
  cases hfield : es.field? "discriminator" with
  | none =>
    rw [Entries.field, hfield]
    exact .ok _
  | some value =>
    have hvalue := Envelope.isDiscriminator_of_field? hes hfield
    rw [Entries.field_of_field? hfield]
    unfold discriminatorOf
    split
    · exact .ok _
    · exact .ok _
    · next fields =>
      have hfields := List.Subset.trans (Raw.parts_subset_of_field? hfield) hparts
      split
      · have hmapping : ∃ entries, entriesOf (Entries.field fields "mapping") = .ok entries
            ∧ (entries = [] ∨ Entries.field? fields "mapping" = some (.dict entries)) := by
          cases hmapping : Entries.field? fields "mapping" with
          | none => exact ⟨[], by simp [Entries.field, hmapping, entriesOf, Raw.isVoid], .inl rfl⟩
          | some mapping =>
            rw [Entries.field_of_field? hmapping]
            simp only [Envelope.isDiscriminator, hmapping, Bool.and_eq_true, Option.all_some] at hvalue
            cases mapping with
            | dict entries => exact ⟨entries, rfl, .inr rfl⟩
            | _ => simp [Envelope.isTextMapping] at hvalue
        obtain ⟨entries, hentries, hfrom⟩ := hmapping
        refine OnlyFails.bind_ok hentries ?_
        apply OnlyFails.bind
        · apply onlyFails_requireNames
          intro r hr
          obtain ⟨e, he, hr⟩ := List.mem_flatMap.mp hr
          have hmapping := hfrom.resolve_left (List.ne_nil_of_mem he)
          have hmapped := List.Subset.trans (Raw.parts_subset_of_field? hmapping) hfields
          obtain ⟨hkey, htarget⟩ := Raw.parts_subset_of_mem_dict he
          rcases List.mem_pair.mp hr with rfl | rfl
          · exact List.Subset.trans hkey hmapped
          · exact List.Subset.trans htarget hmapped
        · exact fun _ _ => .ok _
      · exact .error (.reported rfl)
    · exact .error (.reported rfl)

lemma onlyFails_resolve (pointer : Pointer) (reference : Raw) :
    OnlyFails cs.Fails (cs.resolve pointer reference) := by
  unfold resolve
  split
  · split
    · exact .error (.reported rfl)
    · split
      · exact .ok _
      · exact .error (.reported rfl)
  · exact .error (.reported rfl)

lemma onlyFails_namedSchemasAt {es : Entries}
    (hnames : ∀ e ∈ es, e.1.parts ⊆ (Raw.dict cs.entries).parts)
    (h : ∀ e ∈ es, ∀ pointer, OnlyFails cs.Fails (cs.schemaAt pointer e.2)) (pointer : Pointer) :
    OnlyFails cs.Fails (cs.namedSchemasAt pointer es) := by
  induction es with
  | nil =>
    rw [namedSchemasAt]
    exact .ok _
  | cons e es ih =>
    obtain ⟨hname, hnames⟩ := List.forall_mem_cons.mp hnames
    obtain ⟨hschema, hes⟩ := List.forall_mem_cons.mp h
    rw [namedSchemasAt]
    apply OnlyFails.bind (onlyFails_requireNames (by simpa using hname))
    intro _ _
    apply OnlyFails.bind (hschema _)
    intro _ _
    apply OnlyFails.bind (ih hnames hes)
    exact fun _ _ => .ok _

lemma onlyFails_schemasAt {P : LoadError → Prop} {raws : List Raw}
    (h : ∀ raw ∈ raws, ∀ pointer, OnlyFails P (cs.schemaAt pointer raw)) (pointer : Pointer)
    (index : Nat) : OnlyFails P (cs.schemasAt pointer index raws) := by
  induction raws generalizing index with
  | nil =>
    rw [schemasAt]
    exact .ok _
  | cons raw raws ih =>
    obtain ⟨hschema, hraws⟩ := List.forall_mem_cons.mp h
    rw [schemasAt]
    apply OnlyFails.bind (hschema _)
    intro _ _
    apply OnlyFails.bind (ih hraws (index + 1))
    exact fun _ _ => .ok _

lemma onlyFails_propertiesAt {es : Entries} (hes : Envelope.IsAdmitted (.dict es))
    (hparts : (Raw.dict es).parts ⊆ (Raw.dict cs.entries).parts)
    (hbelow : ∀ e ∈ es.mappingAt "properties", ∀ pointer,
      OnlyFails cs.Fails (cs.schemaAt pointer e.2))
    (pointer : Pointer) :
    OnlyFails cs.Fails (cs.propertiesAt pointer (es.field "properties")) := by
  cases hvalue : es.field? "properties" with
  | none =>
    rw [Entries.field, hvalue]
    exact .ok _
  | some value =>
    obtain ⟨entries, rfl, -⟩ := Envelope.exists_dict_of_properties hes hvalue
    have hfield := Entries.field_of_field? hvalue
    rw [Entries.mappingAt, hfield] at hbelow
    rw [hfield, propertiesAt]
    refine onlyFails_namedSchemasAt (fun e he => ?_) hbelow pointer
    exact List.Subset.trans (Raw.parts_subset_of_mem_dict he).1
      (List.Subset.trans (Raw.parts_subset_of_field? hvalue) hparts)

lemma onlyFails_membersAt {P : LoadError → Prop} {es : Entries}
    (hes : Envelope.IsAdmitted (.dict es)) (kind : CompositionKind)
    (hbelow : ∀ raw ∈ es.listAt kind.keyword, ∀ pointer, OnlyFails P (cs.schemaAt pointer raw))
    (pointer : Pointer) : OnlyFails P (cs.membersAt pointer (es.field kind.keyword)) := by
  cases hvalue : es.field? kind.keyword with
  | none =>
    rw [Entries.field, hvalue]
    exact .ok _
  | some value =>
    obtain ⟨raws, rfl, -⟩ := Envelope.exists_list_of_composition hes hvalue
    have hfield := Entries.field_of_field? hvalue
    rw [Entries.listAt, hfield] at hbelow
    rw [hfield, membersAt]
    exact onlyFails_schemasAt hbelow pointer 0

/-- Reading an admitted raw schema fails in the expected ways only, if so do all that stand
below. -/
lemma onlyFails_fill (hcs : ∀ e ∈ cs.entries, Envelope.IsAdmitted e.2) {es : Entries}
    (hes : Envelope.IsAdmitted (.dict es)) (hparts : (Raw.dict es).parts ⊆ (Raw.dict cs.entries).parts)
    (hbelow : ∀ e ∈ es.outline.children, ∀ pointer, OnlyFails cs.Fails (cs.schemaAt pointer e.2))
    (pointer : Pointer) (node : SchemaNode Schema) :
    OnlyFails cs.Fails (cs.fill pointer node es (cs.partsAt pointer es)) := by
  -- The envelope admits the raw schema, so no part of it has the wrong type, and what is left are
  -- the failures of what stands below.
  obtain ⟨hproperties, hitems, hadditional, honeOf, hanyOf, hallOf⟩ :=
    (SchemaNode.forall_mem_children_iff
      (P := fun raw => ∀ pointer, OnlyFails cs.Fails (cs.schemaAt pointer raw))).mp hbelow
  obtain ⟨raws, hraws, hrequired⟩ :=
    exists_elementsOf fun value hvalue => Envelope.exists_list_of_required hes hvalue
  rw [fill, partsAt_eq]
  apply OnlyFails.bind
  · refine OnlyFails.bind_ok hraws ?_
    apply OnlyFails.bind
    · exact onlyFails_requireNames fun r hr => List.Subset.trans (hrequired r hr) hparts
    · exact fun _ _ => .ok _
  intro required _
  apply OnlyFails.bind
  · refine onlyFails_propertiesAt hes hparts ?_ _
    exact fun e he => hproperties (e.1.text, e.2) (List.mem_map.mpr ⟨e, he, rfl⟩)
  intro properties _
  apply OnlyFails.bind
  · dsimp only
    split
    · exact .ok _
    · next hnull => exact .map (hitems _ (by simp [Entries.outline, hnull]) _)
  intro items _
  apply OnlyFails.bind
  · dsimp only
    split
    · next hmapping => exact .map (hadditional _ (by simp [Entries.outline, hmapping]) _)
    · exact .ok _
  intro additional _
  apply OnlyFails.bind (onlyFails_membersAt hes .oneOf honeOf _)
  intro oneOf _
  apply OnlyFails.bind (onlyFails_membersAt hes .anyOf hanyOf _)
  intro anyOf _
  apply OnlyFails.bind (onlyFails_membersAt hes .allOf hallOf _)
  intro allOf _
  apply OnlyFails.bind (onlyFails_discriminatorOf hes hparts pointer)
  exact fun discriminator _ => onlyFails_withLiterals hcs hes hparts _

lemma onlyFails_schemaAt (hcs : ∀ e ∈ cs.entries, Envelope.IsAdmitted e.2) {raw : Raw}
    (hraw : Envelope.IsAdmitted raw) (hparts : raw.parts ⊆ (Raw.dict cs.entries).parts)
    (pointer : Pointer) : OnlyFails cs.Fails (cs.schemaAt pointer raw) := by
  induction hsize : sizeOf raw using Nat.strongRecOn generalizing raw pointer with
  | _ size ih =>
    cases raw with
    | dict es =>
      simp only [Raw.dict.sizeOf_spec] at hsize
      rw [schemaAt]
      split
      · exact .map (onlyFails_resolve pointer _)
      · apply OnlyFails.map
        apply onlyFails_fill hcs hraw hparts
        intro e he pointer
        have hlt := Entries.sizeOf_lt_of_mem_outline he
        exact ih _ (by omega) (Envelope.isAdmitted_of_mem_outline hraw he)
          (List.Subset.trans (Entries.parts_subset_of_mem_outline he) hparts) pointer rfl
    | _ =>
      rw [schemaAt_of_not_dict (by simp)]
      exact .error (.reported rfl)

/-! ### Components -/

/-- Following aliases from the body of a component fails in the expected ways only. -/
lemma onlyFails_follow {pointer : Pointer} {steps : Nat} {chain : List String} {body : Raw}
    (hbody : ∃ e ∈ cs.entries, e.2 = body) :
    OnlyFails cs.Fails (cs.follow pointer steps chain body) := by
  induction steps generalizing chain body with
  | zero =>
    rw [follow]
    exact .error (.reported rfl)
  | succ steps ih =>
    rw [follow]
    split
    · exact .ok _
    · next reference hreference =>
      apply OnlyFails.bind (onlyFails_resolve pointer reference)
      intro target htarget
      obtain ⟨text, rfl, hname, hmem⟩ := resolve_eq_ok htarget
      by_cases hchain : target ∈ chain
      · simp only [hchain, if_true]
        exact .error (.reported rfl)
      · simp only [hchain, if_false]
        cases hnext : Entries.field? cs.entries target with
        | some next => exact ih ⟨_, Entries.mem_of_field? hnext, rfl⟩
        | none =>
          -- The name is that of a component, but no key is a text of this name: the key is another
          -- value that is written so.
          obtain ⟨e, he, rfl⟩ := hbody
          apply OnlyFails.error
          exact .key he (by simp [referredName?, hreference, hname]) hmem hnext

lemma onlyFails_addComponent (hcs : ∀ e ∈ cs.entries, Envelope.IsAdmitted e.2) {e : Raw × Raw}
    (he : e ∈ cs.entries) (loaded : LoadedDocument) :
    OnlyFails cs.Fails (cs.addComponent loaded e.1 e.2) := by
  rw [addComponent]
  apply OnlyFails.bind (onlyFails_follow ⟨e, he, rfl⟩)
  rintro ⟨target, shape⟩ htarget
  obtain ⟨_, other, hother, rfl⟩ := exists_entry_of_follow ⟨e, he, rfl⟩ htarget
  dsimp only
  split
  · next es heq =>
    have hes : Envelope.IsAdmitted (.dict es) := heq ▸ hcs other hother
    have hparts : (Raw.dict es).parts ⊆ (Raw.dict cs.entries).parts :=
      heq ▸ (Raw.parts_subset_of_mem_dict hother).2
    apply OnlyFails.bind
    · apply onlyFails_fill hcs hes hparts
      intro below hbelow pointer
      exact onlyFails_schemaAt hcs (Envelope.isAdmitted_of_mem_outline hes hbelow)
        (List.Subset.trans (Entries.parts_subset_of_mem_outline hbelow) hparts) pointer
    · exact fun _ _ => .ok _
  · exact .error (.reported rfl)

/-- Loading admitted components fails in the expected ways only. -/
lemma onlyFails_load (hcs : ∀ e ∈ cs.entries, Envelope.IsAdmitted e.2) {es : List (Raw × Raw)}
    (hes : ∀ e ∈ es, e ∈ cs.entries) (loaded : LoadedDocument) :
    OnlyFails cs.Fails (cs.load es loaded) := by
  induction es generalizing loaded with
  | nil => exact .ok _
  | cons e es ih =>
    obtain ⟨he, hes⟩ := List.forall_mem_cons.mp hes
    rw [load]
    apply OnlyFails.bind (onlyFails_addComponent hcs he loaded)
    exact fun next _ => ih hes next

end Components

end ApiLint
