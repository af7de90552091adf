import ApiLint.Proofs.Document.Grammar
import ApiLint.Proofs.Raw.Parts

/-!
# What an examination of an envelope shows

The examination of an envelope shows parts of the document, and fails if one of them is too long to
be written. So it succeeds for a document in which every integer is short enough.
-/

namespace ApiLint

namespace Raw

mutual

/-- If a value can be written, so can its parts. -/
lemma isWritable_of_mem_parts : ∀ raw : Raw, raw.isWritable = true →
    ∀ part ∈ raw.parts, part.isWritable = true
  | .list items | .set items => by
    intro h
    rw [parts]
    exact List.forall_mem_cons.mpr ⟨h, isWritable_of_mem_partsOfAll items h⟩
  | .pair k v => by
    intro h
    obtain ⟨hkey, hvalue⟩ := (Bool.and_eq_true ..).mp h
    rw [parts]
    exact List.forall_mem_cons.mpr ⟨h, List.forall_mem_append.mpr
      ⟨isWritable_of_mem_parts k hkey, isWritable_of_mem_parts v hvalue⟩⟩
  | .dict es => by
    intro h
    rw [parts]
    exact List.forall_mem_cons.mpr ⟨h, isWritable_of_mem_partsOfEntries es h⟩
  | .null | .bool _ | .int _ | .float _ | .str _ | .bytes _ | .date _ | .dateTime _ => by
    intro h part hpart
    rw [List.mem_singleton.mp hpart]
    exact h

lemma isWritable_of_mem_partsOfAll : ∀ items : List Raw, allWritable items = true →
    ∀ part ∈ partsOfAll items, part.isWritable = true
  | [] => nofun
  | x :: xs => by
    rw [allWritable, Bool.and_eq_true, partsOfAll, List.forall_mem_append]
    rintro ⟨hx, hxs⟩
    exact ⟨isWritable_of_mem_parts x hx, isWritable_of_mem_partsOfAll xs hxs⟩

lemma isWritable_of_mem_partsOfEntries : ∀ es : List (Raw × Raw), entriesWritable es = true →
    ∀ part ∈ partsOfEntries es, part.isWritable = true
  | [] => nofun
  | (k, v) :: es => by
    rw [entriesWritable, Bool.and_eq_true, Bool.and_eq_true, partsOfEntries,
      List.forall_mem_append, List.forall_mem_append]
    rintro ⟨⟨hk, hv⟩, hes⟩
    exact ⟨⟨isWritable_of_mem_parts k hk, isWritable_of_mem_parts v hv⟩,
      isWritable_of_mem_partsOfEntries es hes⟩

end

mutual

/-- If every integer in a value can be written, so can the value. -/
lemma isWritable_of_forall_int : ∀ raw : Raw,
    (∀ n, .int n ∈ raw.parts → Number.isWritable n = true) → raw.isWritable = true
  | .list items | .set items => by
    intro h
    exact allWritable_of_forall_int items fun n hn => h n (List.mem_cons_of_mem _ hn)
  | .pair k v => by
    intro h
    rw [isWritable, Bool.and_eq_true]
    simp only [parts, List.mem_cons, List.mem_append] at h
    exact ⟨isWritable_of_forall_int k fun n hn => h n (.inr (.inl hn)),
      isWritable_of_forall_int v fun n hn => h n (.inr (.inr hn))⟩
  | .dict es => by
    intro h
    exact entriesWritable_of_forall_int es fun n hn => h n (List.mem_cons_of_mem _ hn)
  | .int n => fun h => h n (mem_parts_self _)
  | .null | .bool _ | .float _ | .str _ | .bytes _ | .date _ | .dateTime _ => fun _ => rfl

lemma allWritable_of_forall_int : ∀ items : List Raw,
    (∀ n, .int n ∈ partsOfAll items → Number.isWritable n = true) → allWritable items = true
  | [] => fun _ => rfl
  | x :: xs => by
    intro h
    rw [allWritable, Bool.and_eq_true]
    simp only [partsOfAll, List.mem_append] at h
    exact ⟨isWritable_of_forall_int x fun n hn => h n (.inl hn),
      allWritable_of_forall_int xs fun n hn => h n (.inr hn)⟩

lemma entriesWritable_of_forall_int : ∀ es : List (Raw × Raw),
    (∀ n, .int n ∈ partsOfEntries es → Number.isWritable n = true) → entriesWritable es = true
  | [] => fun _ => rfl
  | (k, v) :: es => by
    intro h
    rw [entriesWritable, Bool.and_eq_true, Bool.and_eq_true]
    simp only [partsOfEntries, List.mem_append] at h
    exact ⟨⟨isWritable_of_forall_int k fun n hn => h n (.inl (.inl hn)),
        isWritable_of_forall_int v fun n hn => h n (.inl (.inr hn))⟩,
      entriesWritable_of_forall_int es fun n hn => h n (.inr hn)⟩

end

end Raw

open Raw

namespace Envelope

variable {value : Raw} {es : Entries}

/-! ### Equations -/

/-- The values that are shown of the value of a keyword. -/
def Keyword.shown : Keyword → Raw → List Raw
  | .plain types, value => shownUnless types value
  | .type, value => if isOneOf schemaTypes value then [] else [value]
  | .required, value => requiredShown value
  | .discriminator, value => shownUnless [.string] value
  | .schema, value => schemaShown value
  | .schemaOrBoolean, value =>
    if ValueType.boolean.holds value then [] else value :: schemaShown value
  | .schemaMap, value => schemaMapShown value
  | .schemaList, value => schemaListShown value

lemma keywordsShown_eq (es : Entries) :
    keywordsShown es = es.flatMap fun e => (keyword? e.1).elim [] fun f => f.2.shown e.2 := by
  induction es with
  | nil => rfl
  | cons e es ih =>
    obtain ⟨key, value⟩ := e
    rw [keywordsShown, ih, List.flatMap_cons]
    congr 1
    dsimp only
    cases keyword? key with
    | none => rfl
    | some found =>
      obtain ⟨name, keyword⟩ := found
      cases keyword <;> rfl

lemma namedSchemasShown_eq (es : Entries) :
    namedSchemasShown es = es.flatMap fun e =>
      (if (schemaIssues [] e.2).isEmpty then [] else [e.1]) ++ schemaShown e.2 := by
  induction es with
  | nil => rfl
  | cons e es ih => rw [namedSchemasShown, ih, List.flatMap_cons]

lemma schemasShown_eq (items : List Raw) : schemasShown items = items.flatMap schemaShown := by
  induction items with
  | nil => rfl
  | cons x items ih => rw [schemasShown, ih, List.flatMap_cons]

/-! ### Parts -/

/-- Values that are parts of a value. -/
def AreParts (raw : Raw) (shown : List Raw) : Prop := ∀ r ∈ shown, r ∈ raw.parts

namespace AreParts

variable {raw : Raw} {shown shown' : List Raw}

lemma nil : AreParts raw [] := nofun

lemma self (raw : Raw) : AreParts raw [raw] := List.forall_mem_singleton.mpr (mem_parts_self raw)

lemma append (h : AreParts raw shown) (h' : AreParts raw shown') : AreParts raw (shown ++ shown') :=
  List.forall_mem_append.mpr ⟨h, h'⟩

/-- The value is shown unless it is as it should be. -/
lemma ofUnless {c : Prop} [Decidable c] : AreParts raw (if c then [] else [raw]) := by
  split
  · exact nil
  · exact self raw

lemma mono {part : Raw} (h : AreParts part shown) (hpart : part.parts ⊆ raw.parts) :
    AreParts raw shown :=
  fun r hr => hpart (h r hr)

end AreParts

lemma areParts_requiredShown (value : Raw) : AreParts value (requiredShown value) := by
  cases value with
  | list items =>
    refine List.forall_mem_flatMap.mpr fun x hx => ?_
    exact AreParts.ofUnless.mono (parts_subset_of_mem_list hx)
  | _ => exact .self _

/-- What is shown of the value of a keyword are its parts, if so it is for schemas. -/
lemma areParts_keyword (keyword : Keyword) (hschema : AreParts value (schemaShown value))
    (hmap : AreParts value (schemaMapShown value))
    (hlist : AreParts value (schemaListShown value)) :
    AreParts value (keyword.shown value) := by
  cases keyword with
  | plain types | type | discriminator => exact .ofUnless
  | required => exact areParts_requiredShown value
  | schema => exact hschema
  | schemaOrBoolean =>
    rw [Keyword.shown]
    split
    · exact .nil
    · exact AreParts.append (.self value) hschema
  | schemaMap => exact hmap
  | schemaList => exact hlist

/-- What is shown of a schema are its parts, and so it is for mappings and lists of schemas. -/
lemma areParts_schemas : ∀ raw : Raw, AreParts raw (schemaShown raw)
    ∧ AreParts raw (schemaMapShown raw) ∧ AreParts raw (schemaListShown raw)
  | .dict es => by
    have hbelow : ∀ e ∈ es, AreParts e.2 (schemaShown e.2) ∧ AreParts e.2 (schemaMapShown e.2)
        ∧ AreParts e.2 (schemaListShown e.2) := fun e he =>
      have := Entries.sizeOf_lt_of_mem (show (e.1, e.2) ∈ es from he)
      areParts_schemas e.2
    refine ⟨?_, ?_, .self _⟩
    · rw [schemaShown, keywordsShown_eq]
      refine List.forall_mem_flatMap.mpr fun e he => ?_
      obtain ⟨hschema, hmap, hlist⟩ := hbelow e he
      cases keyword? e.1 with
      | none => exact AreParts.nil
      | some f =>
        exact (areParts_keyword f.2 hschema hmap hlist).mono (parts_subset_of_mem_dict he).2
    · rw [schemaMapShown, namedSchemasShown_eq]
      refine List.forall_mem_flatMap.mpr fun e he => ?_
      obtain ⟨hkey, hvalue⟩ := parts_subset_of_mem_dict he
      exact AreParts.append (AreParts.ofUnless.mono hkey) ((hbelow e he).1.mono hvalue)
  | .list items => by
    refine ⟨.self _, .self _, ?_⟩
    rw [schemaListShown, schemasShown_eq]
    refine List.forall_mem_flatMap.mpr fun x hx => ?_
    have := List.sizeOf_lt_of_mem hx
    exact (areParts_schemas x).1.mono (parts_subset_of_mem_list hx)
  | .null | .bool _ | .int _ | .float _ | .str _ | .bytes _ | .date _ | .dateTime _ | .set _
  | .pair _ _ => ⟨.self _, .self _, .self _⟩
termination_by raw => sizeOf raw
decreasing_by
  all_goals simp_wf; omega

lemma areParts_componentsShown (value : Raw) : AreParts value (componentsShown value) := by
  cases value with
  | dict es =>
    rw [componentsShown]
    split
    · next schemas hschemas =>
      exact (areParts_schemas schemas).2.1.mono (parts_subset_of_field? hschemas)
    · exact .nil
  | _ => exact .self _

/-- What is shown of a field of a mapping are parts of the mapping. -/
lemma areParts_field {name : String} {examine : Raw → List Raw}
    (h : ∀ value, AreParts value (examine value)) :
    AreParts (.dict es) (match Entries.field? es name with
      | some value => examine value
      | none => []) := by
  split
  · next value hvalue => exact (h value).mono (parts_subset_of_field? hvalue)
  · exact .nil

/-- The examination of a document shows parts of it. -/
lemma areParts_documentShown (document : Raw) : AreParts document (documentShown document) := by
  cases document with
  | dict es =>
    refine .append .ofUnless (.append (.append (.append ?_ ?_) ?_) ?_)
    · exact areParts_field fun _ => .ofUnless
    · exact areParts_field fun _ => .ofUnless
    · exact areParts_field areParts_componentsShown
    · exact areParts_field fun value => (areParts_schemas value).2.1
  | _ => exact .self _

/-- Where every integer is short enough to be written, an examination succeeds. -/
lemma issues_eq_ok_of_isWritable {document : Raw} (h : document.isWritable = true) :
    issues document = .ok (orderedIssues document) := by
  refine issues_eq_ok_iff.mpr ⟨fun r hr => ?_, rfl⟩
  exact isWritable_of_mem_parts document h r (areParts_documentShown document r hr)

end Envelope

end ApiLint
