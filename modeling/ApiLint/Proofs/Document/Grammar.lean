import ApiLint.Envelope
import ApiLint.Proofs.Raw.TextKeyed
import ApiLint.Proofs.Schema.Sound

/-!
# The grammar of envelopes

Which documents have no issue in their envelope, said of the values alone: a schema is a mapping
whose keywords have values of their kinds, and a document is a mapping with a version field and with
schemas in the places for them. The examination finds no issue exactly in these documents, and no
issue at a value exactly if it is a schema, whatever the path to it is.
-/

namespace ApiLint

open Raw

namespace Envelope

/-! ### The grammar -/

def IsTextValue (value : Raw) : Prop := ∃ s, value = .str s

def IsFlag (value : Raw) : Prop := ∃ b, value = .bool b

def IsList (value : Raw) : Prop := ∃ items, value = .list items

/-- A number; booleans are none. -/
inductive IsNumber : Raw → Prop
  | int (n : Int) : IsNumber (.int n)
  | float (x : Binary64) : IsNumber (.float x)

/-- The name of a type that a schema may have. -/
def IsTypeName (value : Raw) : Prop :=
  ∃ name ∈ ["string", "number", "integer", "boolean", "object", "array"], value = .str name

def IsTextList (value : Raw) : Prop := ∃ items, value = .list items ∧ ∀ x ∈ items, IsTextValue x

def IsTextMap (value : Raw) : Prop := ∃ es, value = .dict es ∧ ∀ e ∈ es, IsTextValue e.2

/-- The name of a property, or a mapping with the name and perhaps a mapping of texts. -/
inductive IsDiscriminator : Raw → Prop
  | name (s : String) : IsDiscriminator (.str s)
  | mapping {es : Entries}
      (name : ∃ value, es.field? "propertyName" = some value ∧ IsTextValue value)
      (texts : ∀ value, es.field? "mapping" = some value → IsTextMap value) :
      IsDiscriminator (.dict es)

mutual

/-- A schema is a mapping. Some keys are keywords, whose values are of one kind each; other keys may
have any value. -/
inductive IsSchema : Raw → Prop
  | dict {es : Entries}
      (reference : ∀ value, (.str "$ref", value) ∈ es → IsTextValue value)
      (type : ∀ value, (.str "type", value) ∈ es → IsTypeName value)
      (format : ∀ value, (.str "format", value) ∈ es → IsTextValue value)
      (properties : ∀ value, (.str "properties", value) ∈ es → IsSchemaMap value)
      (items : ∀ value, (.str "items", value) ∈ es → IsSchema value)
      (additional : ∀ value, (.str "additionalProperties", value) ∈ es → IsSchemaOrFlag value)
      (oneOf : ∀ value, (.str "oneOf", value) ∈ es → IsSchemaList value)
      (anyOf : ∀ value, (.str "anyOf", value) ∈ es → IsSchemaList value)
      (allOf : ∀ value, (.str "allOf", value) ∈ es → IsSchemaList value)
      (required : ∀ value, (.str "required", value) ∈ es → IsTextList value)
      (enum : ∀ value, (.str "enum", value) ∈ es → IsList value)
      (nullable : ∀ value, (.str "nullable", value) ∈ es → IsFlag value)
      (xNullable : ∀ value, (.str "x-nullable", value) ∈ es → IsFlag value)
      (discriminator : ∀ value, (.str "discriminator", value) ∈ es → IsDiscriminator value) :
      IsSchema (.dict es)

inductive IsSchemaMap : Raw → Prop
  | dict {es : Entries} (h : ∀ e ∈ es, IsSchema e.2) : IsSchemaMap (.dict es)

inductive IsSchemaList : Raw → Prop
  | list {items : List Raw} (h : ∀ x ∈ items, IsSchema x) : IsSchemaList (.list items)

inductive IsSchemaOrFlag : Raw → Prop
  | flag (b : Bool) : IsSchemaOrFlag (.bool b)
  | schema {value : Raw} (h : IsSchema value) : IsSchemaOrFlag value

end

/-- The components of a document, among them perhaps schemas. -/
inductive IsComponents : Raw → Prop
  | dict {es : Entries} (schemas : ∀ value, es.field? "schemas" = some value → IsSchemaMap value) :
      IsComponents (.dict es)

/-- A document is a mapping with a version field of one of the families. -/
inductive IsDocument : Raw → Prop
  | dict {es : Entries}
      (version : (∃ value, es.field? "openapi" = some value)
        ∨ ∃ value, es.field? "swagger" = some value)
      (openapi : ∀ value, es.field? "openapi" = some value → IsTextValue value)
      (swagger : ∀ value, es.field? "swagger" = some value → IsTextValue value ∨ IsNumber value)
      (components : ∀ value, es.field? "components" = some value → IsComponents value)
      (definitions : ∀ value, es.field? "definitions" = some value → IsSchemaMap value) :
      IsDocument (.dict es)

variable {path : List String} {value : Raw} {es : Entries}

/-! ### Values without schemas -/

/-- What is said of a value that fails a test. -/
lemma ite_eq_nil_iff {c : Prop} [Decidable c] {i : EnvelopeIssue} :
    (if c then [] else [i]) = [] ↔ c := by
  split <;> simp [*]

lemma exists_mem_singleton_iff {α : Type} {p : α → Prop} {a : α} : (∃ x ∈ [a], p x) ↔ p a := by
  simp only [List.mem_singleton, exists_eq_left]

lemma ofType_eq_nil_iff {types : List ValueType} :
    ofType types path value = [] ↔ ∃ type ∈ types, type.holds value = true := by
  rw [ofType, ite_eq_nil_iff, List.any_eq_true]

lemma holds_string_iff : ValueType.string.holds value = true ↔ IsTextValue value := by
  cases value <;> simp [ValueType.holds, IsTextValue]

lemma holds_boolean_iff : ValueType.boolean.holds value = true ↔ IsFlag value := by
  cases value <;> simp [ValueType.holds, IsFlag]

lemma holds_array_iff : ValueType.array.holds value = true ↔ IsList value := by
  cases value <;> simp [ValueType.holds, IsList]

lemma holds_number_iff : ValueType.number.holds value = true ↔ IsNumber value := by
  constructor
  · intro h
    cases value with
    | int n => exact .int n
    | float x => exact .float x
    | _ => cases h
  · rintro (_ | _) <;> rfl

lemma isTextMapping_iff : isTextMapping value = true ↔ IsTextMap value := by
  cases value <;> simp [isTextMapping, IsTextMap, holds_string_iff]

lemma isDiscriminator_iff : isDiscriminator value = true ↔ IsDiscriminator value := by
  constructor
  · intro h
    cases value with
    | str s => exact .name s
    | dict es =>
      obtain ⟨hname, htexts⟩ := Bool.and_eq_true_iff.mp h
      refine .mapping ?_ fun value hvalue => ?_
      · obtain ⟨value, hvalue, htext⟩ := (Option.any_eq_true ..).mp hname
        exact ⟨value, hvalue, holds_string_iff.mp htext⟩
      · rw [hvalue] at htexts
        exact isTextMapping_iff.mp htexts
    | _ => cases h
  · rintro (s | ⟨⟨value, hvalue, htext⟩, htexts⟩)
    · rfl
    · rw [isDiscriminator, hvalue, Option.any_some, holds_string_iff.mpr htext, Bool.true_and,
        Option.all_eq_true]
      exact fun value hvalue => isTextMapping_iff.mpr (htexts value hvalue)

lemma isOneOf_iff {texts : List String} :
    isOneOf texts value = true ↔ ∃ text ∈ texts, value = .str text := by
  cases value <;> simp [isOneOf]

lemma ofType_string_eq_nil_iff : ofType [.string] path value = [] ↔ IsTextValue value := by
  rw [ofType_eq_nil_iff, exists_mem_singleton_iff, holds_string_iff]

lemma typeIssues_eq_nil_iff : typeIssues path value = [] ↔ IsTypeName value := by
  rw [typeIssues, List.append_eq_nil_iff, ofType_string_eq_nil_iff, ite_eq_nil_iff, isOneOf_iff]
  constructor
  · exact fun h => h.2
  · rintro ⟨name, hname, rfl⟩
    exact ⟨⟨name, rfl⟩, name, hname, rfl⟩

lemma discriminatorIssues_eq_nil_iff :
    discriminatorIssues path value = [] ↔ IsDiscriminator value := by
  rw [discriminatorIssues, ite_eq_nil_iff, isDiscriminator_iff]

/-- A list has no issue if its elements have none, whatever their indices are. -/
lemma elementIssues_eq_nil_iff {issues : List String → Raw → List EnvelopeIssue} {P : Raw → Prop}
    {items : List Raw} (h : ∀ x ∈ items, ∀ path, issues path x = [] ↔ P x) (index : Nat) :
    elementIssues issues path index items = [] ↔ ∀ x ∈ items, P x := by
  induction items generalizing index with
  | nil => simp [elementIssues]
  | cons x items ih =>
    obtain ⟨hx, hitems⟩ := List.forall_mem_cons.mp h
    rw [elementIssues, List.append_eq_nil_iff, hx, ih hitems, List.forall_mem_cons]

lemma requiredIssues_eq_nil_iff : requiredIssues path value = [] ↔ IsTextList value := by
  cases value with
  | list items =>
    have htexts : ∀ x ∈ items, ∀ path, ofType [.string] path x = [] ↔ IsTextValue x :=
      fun _ _ _ => ofType_string_eq_nil_iff
    rw [requiredIssues, elementIssues_eq_nil_iff htexts]
    simp [IsTextList]
  | _ => simp [requiredIssues, IsTextList]

/-! ### Schemas -/

/-- The values that a keyword may have. -/
def Keyword.Admits : Keyword → Raw → Prop
  | .plain types, value => ∃ type ∈ types, type.holds value = true
  | .type, value => IsTypeName value
  | .required, value => IsTextList value
  | .discriminator, value => IsDiscriminator value
  | .schema, value => IsSchema value
  | .schemaOrBoolean, value => IsSchemaOrFlag value
  | .schemaMap, value => IsSchemaMap value
  | .schemaList, value => IsSchemaList value

/-- A mapping is a schema exactly if every keyword has a value that it may have. -/
lemma isSchema_dict_iff : IsSchema (.dict es) ↔
    ∀ f ∈ keywords, ∀ value, (Raw.str f.1, value) ∈ es → f.2.Admits value := by
  simp only [keywords, List.forall_mem_cons, Keyword.Admits, exists_mem_singleton_iff,
    holds_string_iff, holds_boolean_iff, holds_array_iff]
  constructor
  · intro h
    cases h with
    | dict reference type format properties items additional oneOf anyOf allOf required enum
        nullable xNullable discriminator =>
    exact ⟨reference, type, format, properties, items, additional, oneOf, anyOf, allOf, required,
      enum, nullable, xNullable, discriminator, fun _ h => absurd h List.not_mem_nil⟩
  · rintro ⟨reference, type, format, properties, items, additional, oneOf, anyOf, allOf, required,
      enum, nullable, xNullable, discriminator, -⟩
    exact .dict reference type format properties items additional oneOf anyOf allOf required enum
      nullable xNullable discriminator

lemma isSchemaOrFlag_iff : IsSchemaOrFlag value ↔ IsFlag value ∨ IsSchema value := by
  constructor
  · rintro (b | hvalue)
    · exact .inl ⟨b, rfl⟩
    · exact .inr hvalue
  · rintro (⟨b, rfl⟩ | hvalue)
    · exact .flag b
    · exact .schema hvalue

/-- The issues of the value of a keyword. -/
def Keyword.issues (path : List String) : Keyword → Raw → List EnvelopeIssue
  | .plain types, value => ofType types path value
  | .type, value => typeIssues path value
  | .required, value => requiredIssues path value
  | .discriminator, value => discriminatorIssues path value
  | .schema, value => schemaIssues path value
  | .schemaOrBoolean, value =>
    if ValueType.boolean.holds value || (schemaIssues path value).isEmpty then []
    else [noAlternative path value]
  | .schemaMap, value => schemaMapIssues path value
  | .schemaList, value => schemaListIssues path value

lemma keyword?_eq_some_iff {key : Raw} {f : String × Keyword} :
    keyword? key = some f ↔ f ∈ keywords ∧ key = .str f.1 := by
  have hall : ∀ f ∈ keywords, keyword? (.str f.1) = some f := by
    simp only [keywords, List.forall_mem_cons]
    exact ⟨rfl, rfl, rfl, rfl, rfl, rfl, rfl, rfl, rfl, rfl, rfl, rfl, rfl, rfl,
      fun _ h => absurd h List.not_mem_nil⟩
  constructor
  · intro h
    cases key with
    | str name =>
      obtain ⟨keyword, hfind, rfl⟩ := Option.map_eq_some_iff.mp h
      exact ⟨Fields.mem_of_find? hfind, rfl⟩
    | _ => cases h
  · rintro ⟨hf, rfl⟩
    exact hall f hf

/-- The issues of a mapping are those of the values of its keywords, in its order. -/
lemma keywordsIssues_eq (path : List String) (es : Entries) :
    keywordsIssues path es = es.flatMap fun e =>
      match keyword? e.1 with
      | none => []
      | some (name, keyword) => keyword.issues (path ++ [name]) e.2 := by
  induction es with
  | nil => rfl
  | cons e es ih =>
    obtain ⟨key, value⟩ := e
    rw [keywordsIssues, ih, List.flatMap_cons]
    congr 1
    dsimp only
    cases keyword? key with
    | none => rfl
    | some found =>
      obtain ⟨name, keyword⟩ := found
      cases keyword <;> rfl

lemma keywordsIssues_cons (path : List String) (key value : Raw) (es : Entries) :
    keywordsIssues path ((key, value) :: es)
      = (match keyword? key with
          | none => []
          | some (name, keyword) => keyword.issues (path ++ [name]) value)
        ++ keywordsIssues path es := by
  rw [keywordsIssues_eq, keywordsIssues_eq, List.flatMap_cons]

lemma keywordsIssues_eq_nil_iff : keywordsIssues path es = [] ↔
    ∀ f ∈ keywords, ∀ value, (Raw.str f.1, value) ∈ es → f.2.issues (path ++ [f.1]) value = [] := by
  rw [keywordsIssues_eq, List.flatMap_eq_nil_iff]
  constructor
  · intro h f hf value hmem
    have hentry := h _ hmem
    rwa [keyword?_eq_some_iff.mpr ⟨hf, rfl⟩] at hentry
  · intro h e he
    split
    · rfl
    · next name keyword hkeyword =>
      obtain ⟨hf, hkey⟩ := keyword?_eq_some_iff.mp hkeyword
      exact h _ hf e.2 (hkey ▸ he)

lemma namedSchemasIssues_eq (path : List String) (es : Entries) :
    namedSchemasIssues path es = es.flatMap fun e => schemaIssues (underKey path e.1) e.2 := by
  induction es with
  | nil => rfl
  | cons e es ih => rw [namedSchemasIssues, ih, List.flatMap_cons]

lemma schemasIssues_eq (path : List String) (index : Nat) (items : List Raw) :
    schemasIssues path index items = elementIssues schemaIssues path index items := by
  induction items generalizing index with
  | nil => rfl
  | cons x items ih => rw [schemasIssues, elementIssues, ih]

/-- A value has no issue under a keyword exactly if the keyword admits it, given what issues it has
as a schema, as a mapping and as a list of schemas. -/
lemma Keyword.issues_eq_nil_iff (keyword : Keyword) {path : List String} {value : Raw}
    (h : (schemaIssues path value = [] ↔ IsSchema value)
      ∧ (schemaMapIssues path value = [] ↔ IsSchemaMap value)
      ∧ (schemaListIssues path value = [] ↔ IsSchemaList value)) :
    keyword.issues path value = [] ↔ keyword.Admits value := by
  obtain ⟨hschema, hmap, hlist⟩ := h
  cases keyword with
  | plain types => exact ofType_eq_nil_iff
  | type => exact typeIssues_eq_nil_iff
  | required => exact requiredIssues_eq_nil_iff
  | discriminator => exact discriminatorIssues_eq_nil_iff
  | schema => exact hschema
  | schemaOrBoolean =>
    change (if _ then [] else [noAlternative path value]) = [] ↔ IsSchemaOrFlag value
    rw [ite_eq_nil_iff, Bool.or_eq_true, holds_boolean_iff, List.isEmpty_iff, hschema,
      isSchemaOrFlag_iff]
  | schemaMap => exact hmap
  | schemaList => exact hlist

/-- A value has no issue as a schema, as a mapping or as a list of schemas exactly if it is one. -/
lemma schemas_eq_nil_iff : ∀ (raw : Raw) (path : List String),
    (schemaIssues path raw = [] ↔ IsSchema raw)
    ∧ (schemaMapIssues path raw = [] ↔ IsSchemaMap raw)
    ∧ (schemaListIssues path raw = [] ↔ IsSchemaList raw)
  | .dict es, path => by
    have hbelow : ∀ e ∈ es, ∀ path, (schemaIssues path e.2 = [] ↔ IsSchema e.2)
        ∧ (schemaMapIssues path e.2 = [] ↔ IsSchemaMap e.2)
        ∧ (schemaListIssues path e.2 = [] ↔ IsSchemaList e.2) := fun e he path =>
      have := Entries.sizeOf_lt_of_mem (show (e.1, e.2) ∈ es from he)
      schemas_eq_nil_iff e.2 path
    refine ⟨?_, ?_, ?_⟩
    · rw [schemaIssues, keywordsIssues_eq_nil_iff, isSchema_dict_iff]
      exact forall₄_congr fun f _ value hmem => f.2.issues_eq_nil_iff (hbelow _ hmem _)
    · rw [schemaMapIssues, namedSchemasIssues_eq, List.flatMap_eq_nil_iff]
      constructor
      · exact fun h => .dict fun e he => (hbelow e he _).1.mp (h e he)
      · rintro ⟨h⟩ e he
        exact (hbelow e he _).1.mpr (h e he)
    · exact iff_of_false (by simp [schemaListIssues]) nofun
  | .list items, path => by
    have hbelow : ∀ x ∈ items, ∀ path, schemaIssues path x = [] ↔ IsSchema x := fun x hx path =>
      have := List.sizeOf_lt_of_mem hx
      (schemas_eq_nil_iff x path).1
    refine ⟨iff_of_false (by simp [schemaIssues]) nofun,
      iff_of_false (by simp [schemaMapIssues]) nofun, ?_⟩
    rw [schemaListIssues, schemasIssues_eq, elementIssues_eq_nil_iff hbelow]
    exact ⟨.list, fun ⟨h⟩ => h⟩
  | .null, _ | .bool _, _ | .int _, _ | .float _, _ | .str _, _ | .bytes _, _ | .date _, _
  | .dateTime _, _ | .set _, _ | .pair _ _, _ =>
    ⟨iff_of_false (by simp [schemaIssues]) nofun, iff_of_false (by simp [schemaMapIssues]) nofun,
      iff_of_false (by simp [schemaListIssues]) nofun⟩
termination_by raw => sizeOf raw
decreasing_by
  all_goals simp_wf; omega

/-! ### Documents -/

lemma componentsIssues_eq_nil_iff : componentsIssues path value = [] ↔ IsComponents value := by
  cases value with
  | dict es =>
    rw [componentsIssues]
    constructor
    · intro h
      refine .dict fun schemas hschemas => ?_
      rw [hschemas] at h
      exact (schemas_eq_nil_iff schemas _).2.1.mp h
    · rintro ⟨h⟩
      split
      · next schemas hschemas => exact (schemas_eq_nil_iff schemas _).2.1.mpr (h schemas hschemas)
      · rfl
  | _ => exact iff_of_false (by simp [componentsIssues]) nofun

/-- A field has no issue if it is absent or its value has none. -/
lemma field_eq_nil_iff {field : Option Raw} {issues : Raw → List EnvelopeIssue} {P : Raw → Prop}
    (h : ∀ value, issues value = [] ↔ P value) :
    (match field with
      | some value => issues value
      | none => []) = [] ↔ ∀ value, field = some value → P value := by
  cases field with
  | none => simp
  | some value => simp [h]

lemma fieldsIssues_eq_nil_iff : fieldsIssues es = [] ↔
    (∀ value, es.field? "openapi" = some value → IsTextValue value)
    ∧ (∀ value, es.field? "swagger" = some value → IsTextValue value ∨ IsNumber value)
    ∧ (∀ value, es.field? "components" = some value → IsComponents value)
    ∧ ∀ value, es.field? "definitions" = some value → IsSchemaMap value := by
  have hversion : ∀ value, ofType [.string, .number] ["swagger"] value = []
      ↔ IsTextValue value ∨ IsNumber value := by
    intro value
    rw [ofType_eq_nil_iff, List.exists_mem_cons_iff, exists_mem_singleton_iff, holds_string_iff,
      holds_number_iff]
  simp only [fieldsIssues, List.append_eq_nil_iff, and_assoc]
  refine and_congr ?_ (and_congr ?_ (and_congr ?_ ?_))
  · exact field_eq_nil_iff fun _ => ofType_string_eq_nil_iff
  · exact field_eq_nil_iff hversion
  · exact field_eq_nil_iff fun _ => componentsIssues_eq_nil_iff
  · exact field_eq_nil_iff fun value => (schemas_eq_nil_iff value _).2.1

lemma documentIssues_eq_nil_iff : documentIssues value = [] ↔ IsDocument value := by
  cases value with
  | dict es =>
    rw [documentIssues, List.append_eq_nil_iff, ite_eq_nil_iff, Bool.or_eq_true,
      Option.isSome_iff_exists, Option.isSome_iff_exists, fieldsIssues_eq_nil_iff]
    constructor
    · rintro ⟨version, openapi, swagger, components, definitions⟩
      exact .dict version openapi swagger components definitions
    · rintro ⟨version, openapi, swagger, components, definitions⟩
      exact ⟨version, openapi, swagger, components, definitions⟩
  | _ => exact iff_of_false (by simp [documentIssues]) nofun

lemma orderedIssues_eq_nil_iff {document : Raw} :
    orderedIssues document = [] ↔ documentIssues document = [] := by
  rw [← List.length_eq_zero_iff, orderedIssues, List.length_mergeSort, List.length_eq_zero_iff]

/-! ### Examinations that succeed -/

/-- An examination succeeds where all values that it shows are short enough to be written. -/
lemma issues_eq_ok_iff {document : Raw} {is : List EnvelopeIssue} :
    issues document = .ok is ↔
      (∀ r ∈ documentShown document, r.isWritable = true) ∧ orderedIssues document = is := by
  rw [issues, ← Raw.requireTexts_eq_ok_iff]
  cases Raw.requireTexts (documentShown document) <;> simp [Except.map]

lemma issues_eq_ok_nil_iff_documentIssues {document : Raw} :
    issues document = .ok [] ↔
      (∀ r ∈ documentShown document, r.isWritable = true) ∧ documentIssues document = [] := by
  rw [issues_eq_ok_iff, orderedIssues_eq_nil_iff]

/-- A document has no issue in its envelope exactly if it is of the grammar and the examination
shows no value that is too long to be written. -/
lemma issues_eq_ok_nil_iff {document : Raw} :
    issues document = .ok [] ↔
      (∀ r ∈ documentShown document, r.isWritable = true) ∧ IsDocument document := by
  rw [issues_eq_ok_nil_iff_documentIssues, documentIssues_eq_nil_iff]

lemma isDocument_of_issues {document : Raw} (h : issues document = .ok []) : IsDocument document :=
  (issues_eq_ok_nil_iff.mp h).2

end Envelope

end ApiLint
