import ApiLint.Proofs.Document.Shown
import ApiLint.Proofs.Raw.Rekeying

/-!
# Documents that an examination cannot tell apart

Of the values under most keywords an examination of an envelope asks nothing but their types, and of
names and references nothing but that they can be written. So two values which differ in these only
both have issues or neither, and the examination of both fails or of neither.
-/

namespace ApiLint

namespace Envelope

/-- Examinations of two values that find issues in both or in neither, and show values of which the
ones can be written where the others can. -/
structure ExaminedAlike (is is' : List EnvelopeIssue) (shown shown' : List Raw) : Prop where
  issues : is' = [] ↔ is = []
  shown : shown'.map Raw.isWritable = shown.map Raw.isWritable

namespace ExaminedAlike

variable {is is' js js' : List EnvelopeIssue} {shown shown' more more' : List Raw}

lemma nil : ExaminedAlike [] [] [] [] := ⟨Iff.rfl, rfl⟩

lemma append (h : ExaminedAlike is is' shown shown') (h' : ExaminedAlike js js' more more') :
    ExaminedAlike (is ++ js) (is' ++ js') (shown ++ more) (shown' ++ more') where
  issues := by rw [List.append_eq_nil_iff, List.append_eq_nil_iff, h.issues, h'.issues]
  shown := by rw [List.map_append, List.map_append, h.shown, h'.shown]

/-- A value of which nothing is right. -/
lemma single {i i' : EnvelopeIssue} {value value' : Raw}
    (h : value'.isWritable = value.isWritable) : ExaminedAlike [i] [i'] [value] [value'] := by
  refine ⟨by simp, ?_⟩
  rw [List.map_singleton, List.map_singleton, h]

lemma isEmpty_eq (h : ExaminedAlike is is' shown shown') : is'.isEmpty = is.isEmpty := by
  rw [Bool.eq_iff_iff, List.isEmpty_iff, List.isEmpty_iff, h.issues]

/-- The values that are shown can all be written, or they cannot. -/
lemma requireTexts_eq (h : ExaminedAlike is is' shown shown') :
    Raw.requireTexts shown' = Raw.requireTexts shown := by
  have hall : shown'.all Raw.isWritable = shown.all Raw.isWritable := by
    simpa only [List.all_map, Function.id_comp] using congrArg (List.all · id) h.shown
  rw [Raw.requireTexts, Raw.requireTexts, hall]

end ExaminedAlike

/-- The role of the value of a keyword, if more is asked of it than its type. -/
def Keyword.role? : Keyword → Option Role
  | .plain _ => none
  | .type | .required | .discriminator => some .plain
  | .schema | .schemaOrBoolean => some .schema
  | .schemaMap => some .schemaMap
  | .schemaList => some .schemaList

lemma under_of_keyword? {key : Raw} {name : String} {keyword : Keyword}
    (h : keyword? key = some (name, keyword)) {role : Role} (hrole : keyword.role? = some role) :
    Role.under .schema key = role := by
  have hall : ∀ f ∈ keywords,
      f.2.role? = none ∨ f.2.role? = some (Role.under .schema (.str f.1)) := by decide
  obtain ⟨hf, rfl⟩ := keyword?_eq_some_iff.mp h
  rcases hall _ hf with hnone | hsome
  · simp [hnone] at hrole
  · rw [hsome] at hrole
    exact Option.some.inj hrole

/-- Two values of the same types, of which both can be written or neither. -/
structure SameSort (value value' : Raw) : Prop where
  holds : ∀ type : ValueType, type.holds value' = type.holds value
  writable : value'.isWritable = value.isWritable

/-- A relation of values in a role that tells them apart in nothing that an examination asks for:
values in no role worth mentioning are the same; mappings have the same keywords, with values of the
same sort that are related as far as more is asked of them; and so it is with the schemas in
mappings and lists, whose names can be written alike. -/
structure IsLikeness (R : Role → Raw → Raw → Prop) : Prop where
  sort : ∀ {role value value'}, R role value value' → SameSort value value'
  plain : ∀ {value value'}, R .plain value value' → value' = value
  schema : ∀ {es es'}, R .schema (.dict es) (.dict es') →
    List.Forall₂ (fun e e' : Raw × Raw => e'.1 = e.1 ∧ SameSort e.2 e'.2
      ∧ ∀ name keyword role, keyword? e.1 = some (name, keyword) → keyword.role? = some role →
        R role e.2 e'.2) es es'
  schemaMap : ∀ {es es'}, R .schemaMap (.dict es) (.dict es') →
    List.Forall₂ (fun e e' : Raw × Raw => e'.1.isWritable = e.1.isWritable ∧ R .schema e.2 e'.2)
      es es'
  schemaList : ∀ {items items'}, R .schemaList (.list items) (.list items') →
    List.Forall₂ (R .schema) items items'

/-! ### Values in place of others -/

section NotOfType

variable {value : Raw}

lemma schema_of_not_object (h : ValueType.object.holds value = false) (path : List String) :
    schemaIssues path value = [notOfType path [.object] value] ∧ schemaShown value = [value] := by
  cases value with
  | dict es => cases h
  | _ => exact ⟨by rw [schemaIssues.eq_def], by rw [schemaShown.eq_def]⟩

lemma schemaMap_of_not_object (h : ValueType.object.holds value = false) (path : List String) :
    schemaMapIssues path value = [notOfType path [.object] value]
      ∧ schemaMapShown value = [value] := by
  cases value with
  | dict es => cases h
  | _ => exact ⟨by rw [schemaMapIssues.eq_def], by rw [schemaMapShown.eq_def]⟩

lemma schemaList_of_not_array (h : ValueType.array.holds value = false) (path : List String) :
    schemaListIssues path value = [notOfType path [.array] value]
      ∧ schemaListShown value = [value] := by
  cases value with
  | list items => cases h
  | _ => exact ⟨by rw [schemaListIssues.eq_def], by rw [schemaListShown.eq_def]⟩

/-- Values of the same sort are examined alike if they are not of the type that is asked for, and
are shown for that. -/
lemma SameSort.examinedAlike_of_not {issuesOf : List String → Raw → List EnvelopeIssue}
    {shownOf : Raw → List Raw} {type : ValueType}
    (hnot : ∀ value, type.holds value = false → ∀ path,
      issuesOf path value = [notOfType path [type] value] ∧ shownOf value = [value])
    {value' : Raw} (hsort : SameSort value value') (h : type.holds value = false)
    (path path' : List String) :
    ExaminedAlike (issuesOf path value) (issuesOf path' value') (shownOf value)
      (shownOf value') := by
  obtain ⟨hissues, hshown⟩ := hnot _ h path
  obtain ⟨hissues', hshown'⟩ := hnot _ ((hsort.holds type).trans h) path'
  rw [hissues, hshown, hissues', hshown']
  exact .single hsort.writable

end NotOfType

lemma exists_dict_of_holds {value : Raw} (h : ValueType.object.holds value = true) :
    ∃ es, value = .dict es := by
  cases value with
  | dict es => exact ⟨es, rfl⟩
  | _ => cases h

lemma exists_list_of_holds {value : Raw} (h : ValueType.array.holds value = true) :
    ∃ items, value = .list items := by
  cases value with
  | list items => exact ⟨items, rfl⟩
  | _ => cases h

/-! ### Keywords -/

variable {R : Role → Raw → Raw → Prop} {path path' : List String} {value value' : Raw}

lemma SameSort.examinedAlike_ofType (h : SameSort value value') (types : List ValueType) :
    ExaminedAlike (ofType types path value) (ofType types path' value') (shownUnless types value)
      (shownUnless types value') := by
  simp only [ofType, shownUnless, h.holds]
  split
  · exact .nil
  · exact .single h.writable

/-- The value of a keyword is examined as another one of its sort, if so it is as far as the keyword
asks for schemas. -/
lemma Keyword.examinedAlike (keyword : Keyword) (hsort : SameSort value value')
    (hplain : keyword.role? = some .plain → value' = value)
    (hschema : keyword.role? = some .schema → ExaminedAlike (schemaIssues path value)
      (schemaIssues path' value') (schemaShown value) (schemaShown value'))
    (hmap : keyword.role? = some .schemaMap → ExaminedAlike (schemaMapIssues path value)
      (schemaMapIssues path' value') (schemaMapShown value) (schemaMapShown value'))
    (hlist : keyword.role? = some .schemaList → ExaminedAlike (schemaListIssues path value)
      (schemaListIssues path' value') (schemaListShown value) (schemaListShown value')) :
    ExaminedAlike (keyword.issues path value) (keyword.issues path' value') (keyword.shown value)
      (keyword.shown value') := by
  cases keyword with
  | plain types => exact hsort.examinedAlike_ofType types
  | type =>
    rw [hplain rfl]
    exact ⟨typeIssues_eq_nil_iff.trans typeIssues_eq_nil_iff.symm, rfl⟩
  | required =>
    rw [hplain rfl]
    exact ⟨requiredIssues_eq_nil_iff.trans requiredIssues_eq_nil_iff.symm, rfl⟩
  | discriminator =>
    rw [hplain rfl]
    exact ⟨discriminatorIssues_eq_nil_iff.trans discriminatorIssues_eq_nil_iff.symm, rfl⟩
  | schema => exact hschema rfl
  | schemaOrBoolean =>
    have hschema := hschema rfl
    refine ⟨?_, ?_⟩
    · simp [Keyword.issues, hsort.holds, hschema.issues]
    · simp only [Keyword.shown, hsort.holds]
      split
      · rfl
      · rw [List.map_cons, List.map_cons, hsort.writable, hschema.shown]
  | schemaMap => exact hmap rfl
  | schemaList => exact hlist rfl

/-! ### Schemas -/

lemma examinedAlike_keywords {es es' : Entries} (h : List.Forall₂ (fun e e' : Raw × Raw =>
      e'.1 = e.1 ∧ ∀ name keyword, keyword? e.1 = some (name, keyword) →
        ExaminedAlike (keyword.issues (path ++ [name]) e.2) (keyword.issues (path' ++ [name]) e'.2)
          (keyword.shown e.2) (keyword.shown e'.2)) es es') :
    ExaminedAlike (keywordsIssues path es) (keywordsIssues path' es') (keywordsShown es)
      (keywordsShown es') := by
  induction h with
  | nil => exact .nil
  | @cons e e' es es' head _ ih =>
    obtain ⟨key, value⟩ := e
    obtain ⟨key', value'⟩ := e'
    obtain ⟨hkey, hvalue⟩ := head
    dsimp only at hkey hvalue
    subst hkey
    simp only [keywordsShown_eq, keywordsIssues_cons, List.flatMap_cons] at ih ⊢
    refine .append ?_ ih
    cases hkeyword : keyword? key' with
    | none => exact .nil
    | some found => exact hvalue found.1 found.2 hkeyword

lemma examinedAlike_namedSchemas {es es' : Entries} (h : List.Forall₂ (fun e e' : Raw × Raw =>
      e'.1.isWritable = e.1.isWritable ∧ ∀ path path', ExaminedAlike (schemaIssues path e.2)
        (schemaIssues path' e'.2) (schemaShown e.2) (schemaShown e'.2)) es es') :
    ExaminedAlike (namedSchemasIssues path es) (namedSchemasIssues path' es') (namedSchemasShown es)
      (namedSchemasShown es') := by
  induction h with
  | nil => exact .nil
  | @cons e e' es es' head _ ih =>
    obtain ⟨key, value⟩ := e
    obtain ⟨key', value'⟩ := e'
    obtain ⟨hkey, hvalue⟩ := head
    rw [namedSchemasIssues, namedSchemasIssues, namedSchemasShown, namedSchemasShown]
    refine .append ⟨(hvalue _ _).issues, ?_⟩ ih
    rw [List.map_append, List.map_append, (hvalue path path').shown, (hvalue [] []).isEmpty_eq]
    split
    · rfl
    · rw [List.map_singleton, List.map_singleton, hkey]

lemma examinedAlike_schemas {items items' : List Raw} (h : List.Forall₂ (fun x x' =>
      ∀ path path', ExaminedAlike (schemaIssues path x) (schemaIssues path' x') (schemaShown x)
        (schemaShown x')) items items') (index : Nat) :
    ExaminedAlike (schemasIssues path index items) (schemasIssues path' index items')
      (schemasShown items) (schemasShown items') := by
  induction h generalizing index with
  | nil => exact .nil
  | cons head _ ih =>
    rw [schemasIssues, schemasIssues, schemasShown, schemasShown]
    exact .append (head _ _) (ih (index + 1))

/-! ### Related values -/

/-- Two values that are examined alike at all places, in each of the three ways in which they are
related. -/
structure RelatedAlike (R : Role → Raw → Raw → Prop) (raw raw' : Raw) : Prop where
  schema : R .schema raw raw' → ∀ path path', ExaminedAlike (schemaIssues path raw)
    (schemaIssues path' raw') (schemaShown raw) (schemaShown raw')
  schemaMap : R .schemaMap raw raw' → ∀ path path', ExaminedAlike (schemaMapIssues path raw)
    (schemaMapIssues path' raw') (schemaMapShown raw) (schemaMapShown raw')
  schemaList : R .schemaList raw raw' → ∀ path path', ExaminedAlike (schemaListIssues path raw)
    (schemaListIssues path' raw') (schemaListShown raw) (schemaListShown raw')

namespace IsLikeness

variable {raw raw' : Raw} (hR : IsLikeness R)
  (hbelow : ∀ part part', sizeOf part < sizeOf raw → RelatedAlike R part part')
include hR hbelow

lemma examinedAlike_schema (h : R .schema raw raw') (path path' : List String) :
    ExaminedAlike (schemaIssues path raw) (schemaIssues path' raw') (schemaShown raw)
      (schemaShown raw') := by
  have hsort := hR.sort h
  cases hobject : ValueType.object.holds raw with
  | false => exact hsort.examinedAlike_of_not (fun _ => schema_of_not_object) hobject path path'
  | true =>
    obtain ⟨es, rfl⟩ := exists_dict_of_holds hobject
    obtain ⟨es', rfl⟩ := exists_dict_of_holds ((hsort.holds .object).trans hobject)
    rw [schemaIssues, schemaIssues, schemaShown, schemaShown]
    refine examinedAlike_keywords ?_
    refine ((List.forall₂_and_left _ _).mpr ⟨fun e he => he, hR.schema h⟩).imp ?_
    rintro e e' ⟨he, hkey, hvalues, hrelated⟩
    refine ⟨hkey, fun name keyword hkeyword => ?_⟩
    have halike := hbelow e.2 e'.2 (Entries.sizeOf_lt_dict he)
    exact keyword.examinedAlike hvalues (fun hrole => hR.plain (hrelated _ _ _ hkeyword hrole))
      (fun hrole => halike.schema (hrelated _ _ _ hkeyword hrole) _ _)
      (fun hrole => halike.schemaMap (hrelated _ _ _ hkeyword hrole) _ _)
      fun hrole => halike.schemaList (hrelated _ _ _ hkeyword hrole) _ _

lemma examinedAlike_schemaMap (h : R .schemaMap raw raw') (path path' : List String) :
    ExaminedAlike (schemaMapIssues path raw) (schemaMapIssues path' raw') (schemaMapShown raw)
      (schemaMapShown raw') := by
  have hsort := hR.sort h
  cases hobject : ValueType.object.holds raw with
  | false => exact hsort.examinedAlike_of_not (fun _ => schemaMap_of_not_object) hobject path path'
  | true =>
    obtain ⟨es, rfl⟩ := exists_dict_of_holds hobject
    obtain ⟨es', rfl⟩ := exists_dict_of_holds ((hsort.holds .object).trans hobject)
    rw [schemaMapIssues, schemaMapIssues, schemaMapShown, schemaMapShown]
    refine examinedAlike_namedSchemas ?_
    refine ((List.forall₂_and_left _ _).mpr ⟨fun e he => he, hR.schemaMap h⟩).imp ?_
    rintro e e' ⟨he, hkey, hrelated⟩
    exact ⟨hkey, (hbelow e.2 e'.2 (Entries.sizeOf_lt_dict he)).schema hrelated⟩

lemma examinedAlike_schemaList (h : R .schemaList raw raw') (path path' : List String) :
    ExaminedAlike (schemaListIssues path raw) (schemaListIssues path' raw') (schemaListShown raw)
      (schemaListShown raw') := by
  have hsort := hR.sort h
  cases harray : ValueType.array.holds raw with
  | false => exact hsort.examinedAlike_of_not (fun _ => schemaList_of_not_array) harray path path'
  | true =>
    obtain ⟨items, rfl⟩ := exists_list_of_holds harray
    obtain ⟨items', rfl⟩ := exists_list_of_holds ((hsort.holds .array).trans harray)
    rw [schemaListIssues, schemaListIssues, schemaListShown, schemaListShown]
    refine examinedAlike_schemas ?_ 0
    refine ((List.forall₂_and_left _ _).mpr ⟨fun x hx => hx, hR.schemaList h⟩).imp ?_
    rintro x x' ⟨hx, hrelated⟩
    exact (hbelow x x' (Raw.sizeOf_lt_list hx)).schema hrelated

end IsLikeness

/-- Related values are examined alike as schemas, as mappings and as lists of schemas. -/
theorem IsLikeness.relatedAlike (hR : IsLikeness R) : ∀ raw raw', RelatedAlike R raw raw'
  | raw, raw' =>
    have hbelow : ∀ part part', sizeOf part < sizeOf raw → RelatedAlike R part part' :=
      fun part part' _ => hR.relatedAlike part part'
    { schema := hR.examinedAlike_schema hbelow
      schemaMap := hR.examinedAlike_schemaMap hbelow
      schemaList := hR.examinedAlike_schemaList hbelow }
termination_by raw => sizeOf raw

end Envelope

end ApiLint
