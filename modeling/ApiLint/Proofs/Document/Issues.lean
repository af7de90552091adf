import ApiLint.Proofs.Document.Shown
import ApiLint.Proofs.Raw.Steps

/-!
# The places of envelope issues

An issue of the envelope tells of a value of the document, and its path has the segments of steps
that lead down to this value. So its pointer addresses the value, unless the null key is on the way:
that key has no segment, and a pointer below it leads astray. In a text-keyed document the path is a
route.
-/

namespace ApiLint

open Raw

namespace EnvelopeIssue

/-- The message of an issue shows a value and says how it departs from the shape. -/
def TellsOf (i : EnvelopeIssue) (value : Raw) : Prop :=
  ∃ departure, i.message = value.inspect ++ departure

/-- An issue tells of the value to which steps lead in a document, and points there. -/
structure StandsAt (i : EnvelopeIssue) (document : Raw) (steps : List Step) (target : Raw) :
    Prop where
  path : i.path = steps.flatMap Step.segments
  descends : document.Descends steps target
  tellsOf : i.TellsOf target

end EnvelopeIssue

namespace Envelope

variable {path : List String} {raw value : Raw} {es : Entries} {is is' : List EnvelopeIssue}

/-- Issues below a path, each of which tells of a part of a value. -/
def Locate (path : List String) (raw : Raw) (is : List EnvelopeIssue) : Prop :=
  ∀ i ∈ is, ∃ steps target, i.path = path ++ steps.flatMap Step.segments
    ∧ raw.Descends steps target ∧ i.TellsOf target

namespace Locate

lemma nil : Locate path raw [] := fun _ hi => absurd hi List.not_mem_nil

/-- An issue about the value itself. -/
lemma here {message : String} (h : EnvelopeIssue.TellsOf ⟨path, message⟩ raw) :
    Locate path raw [⟨path, message⟩] := by
  intro i hi
  rw [List.mem_singleton.mp hi]
  exact ⟨[], raw, by simp, .here raw, h⟩

lemma append (h : Locate path raw is) (h' : Locate path raw is') : Locate path raw (is ++ is') :=
  fun i hi => (List.mem_append.mp hi).elim (h i) (h' i)

lemma flatMap {α : Type} {items : List α} {found : α → List EnvelopeIssue}
    (h : ∀ item ∈ items, Locate path raw (found item)) :
    Locate path raw (items.flatMap found) := by
  intro i hi
  obtain ⟨item, hitem, hi⟩ := List.mem_flatMap.mp hi
  exact h item hitem i hi

/-- Issues about the value of a key. -/
lemma ofEntry {e : Raw × Raw} (h : Locate (path ++ (Step.key e.1).segments) e.2 is) (he : e ∈ es) :
    Locate path (.dict es) is := by
  intro i hi
  obtain ⟨steps, target, hpath, hsteps, htells⟩ := h i hi
  exact ⟨.key e.1 :: steps, target, by rw [hpath, List.append_assoc, List.flatMap_cons],
    .entry he hsteps, htells⟩

lemma ofField {name : String} (h : Locate (path ++ [name]) value is)
    (hvalue : (Raw.str name, value) ∈ es) : Locate path (.dict es) is :=
  ofEntry (e := (.str name, value)) h hvalue

/-- Issues about an element of a list. -/
lemma ofItem {items : List Raw} {index : Nat} (h : Locate (path ++ [writtenNat index]) value is)
    (hvalue : items[index]? = some value) : Locate path (.list items) is := by
  intro i hi
  obtain ⟨steps, target, hpath, hsteps, htells⟩ := h i hi
  exact ⟨.index index :: steps, target, by rw [hpath, List.append_assoc, List.flatMap_cons]; rfl,
    .item hvalue hsteps, htells⟩

end Locate

/-! ### Values without schemas -/

lemma tellsOf_notOfType (path : List String) (types : List ValueType) (value : Raw) :
    (notOfType path types value).TellsOf value :=
  ⟨_, String.append_assoc ..⟩

lemma tellsOf_noAlternative (path : List String) (value : Raw) :
    (noAlternative path value).TellsOf value :=
  ⟨" is not valid under any of the given schemas", rfl⟩

lemma locate_notOfType {types : List ValueType} :
    Locate path value [notOfType path types value] := .here (tellsOf_notOfType ..)

lemma locate_ofType {types : List ValueType} : Locate path value (ofType types path value) := by
  rw [ofType]
  split
  · exact .nil
  · exact locate_notOfType

/-- What is said of a value that has none of several shapes. -/
lemma locate_noAlternative {c : Prop} [Decidable c] :
    Locate path value (if c then [] else [noAlternative path value]) := by
  split
  · exact .nil
  · exact .here (tellsOf_noAlternative ..)

lemma locate_typeIssues (value : Raw) : Locate path value (typeIssues path value) := by
  refine .append locate_ofType ?_
  split
  · exact .nil
  · exact .here ⟨_, String.append_assoc ..⟩

/-- What is asked of each element of a list. -/
lemma locate_elementIssues {issues : List String → Raw → List EnvelopeIssue} {items : List Raw}
    (h : ∀ x ∈ items, ∀ path, Locate path x (issues path x)) :
    Locate path (.list items) (elementIssues issues path 0 items) := by
  suffices hfrom : ∀ rest index, items.drop index = rest →
      Locate path (.list items) (elementIssues issues path index rest) from hfrom items 0 rfl
  intro rest
  induction rest with
  | nil => exact fun _ _ => .nil
  | cons x rest ih =>
    intro index hdrop
    have hx : items[index]? = some x := by
      rw [← List.head?_drop, hdrop, List.head?_cons]
    have hrest : items.drop (index + 1) = rest := by
      rw [← List.tail_drop, hdrop, List.tail_cons]
    exact .append (.ofItem (h x (List.mem_of_getElem? hx) _) hx) (ih (index + 1) hrest)

lemma locate_requiredIssues (value : Raw) : Locate path value (requiredIssues path value) := by
  cases value with
  | list items => exact locate_elementIssues fun _ _ _ => locate_ofType
  | _ => exact locate_notOfType

/-! ### Schemas -/

lemma underKey_eq (path : List String) (key : Raw) :
    underKey path key = path ++ (Step.key key).segments := by
  by_cases h : key = .null
  · rw [h]
    exact (List.append_nil path).symm
  · rw [Step.segments_key h]
    cases key with
    | null => exact absurd rfl h
    | _ => rfl

/-- The issues of the value of a keyword are about its parts, if those of schemas are. -/
lemma locate_keyword (keyword : Keyword)
    (hschema : Locate path raw (schemaIssues path raw))
    (hmap : Locate path raw (schemaMapIssues path raw))
    (hlist : Locate path raw (schemaListIssues path raw)) :
    Locate path raw (keyword.issues path raw) := by
  cases keyword with
  | plain types => exact locate_ofType
  | type => exact locate_typeIssues raw
  | required => exact locate_requiredIssues raw
  | discriminator => exact locate_noAlternative
  | schema => exact hschema
  | schemaOrBoolean => exact locate_noAlternative
  | schemaMap => exact hmap
  | schemaList => exact hlist

/-- The issues of a schema are about its parts, and so are those of mappings and of lists of
schemas. -/
lemma locate_schemas : ∀ (raw : Raw) (path : List String), Locate path raw (schemaIssues path raw)
    ∧ Locate path raw (schemaMapIssues path raw) ∧ Locate path raw (schemaListIssues path raw)
  | .dict es, path => by
    -- The three kinds of check call each other, and so they are followed together, down the value.
    have hbelow : ∀ e ∈ es, ∀ path, Locate path e.2 (schemaIssues path e.2)
        ∧ Locate path e.2 (schemaMapIssues path e.2)
        ∧ Locate path e.2 (schemaListIssues path e.2) := fun e he path =>
      have := Entries.sizeOf_lt_of_mem (show (e.1, e.2) ∈ es from he)
      locate_schemas e.2 path
    refine ⟨?_, ?_, locate_notOfType⟩
    · rw [schemaIssues, keywordsIssues_eq]
      refine .flatMap fun e he => ?_
      cases hkeyword : keyword? e.1 with
      | none => exact .nil
      | some f =>
        obtain ⟨hschema, hmap, hlist⟩ := hbelow e he (path ++ (Step.key e.1).segments)
        have hentry := Locate.ofEntry (locate_keyword f.2 hschema hmap hlist) he
        rwa [(keyword?_eq_some_iff.mp hkeyword).2] at hentry
    · rw [schemaMapIssues, namedSchemasIssues_eq]
      refine .flatMap fun e he => ?_
      rw [underKey_eq]
      exact .ofEntry (hbelow e he _).1 he
  | .list items, path => by
    refine ⟨locate_notOfType, locate_notOfType, ?_⟩
    rw [schemaListIssues, schemasIssues_eq]
    exact locate_elementIssues fun x hx path =>
      have := List.sizeOf_lt_of_mem hx
      (locate_schemas x path).1
  | .null, _ | .bool _, _ | .int _, _ | .float _, _ | .str _, _ | .bytes _, _ | .date _, _
  | .dateTime _, _ | .set _, _ | .pair _ _, _ =>
    ⟨locate_notOfType, locate_notOfType, locate_notOfType⟩
termination_by raw => sizeOf raw
decreasing_by
  all_goals simp_wf; omega

/-! ### Documents -/

lemma locate_componentsIssues (raw : Raw) : Locate path raw (componentsIssues path raw) := by
  cases raw with
  | dict es =>
    rw [componentsIssues]
    split
    · next schemas hschemas =>
      exact (locate_schemas schemas _).2.1.ofField (Entries.mem_of_field? hschemas)
    · exact .nil
  | _ => exact locate_notOfType

/-- What is found at the value of a field lies below the mapping. -/
lemma locate_field {es : Entries} (name : String)
    {examine : List String → Raw → List EnvelopeIssue}
    (h : ∀ value, Locate [name] value (examine [name] value)) :
    Locate [] (.dict es) (match Entries.field? es name with
      | some value => examine [name] value
      | none => []) := by
  split
  · next value hvalue =>
    have hbelow : Locate ([] ++ [name]) value (examine [name] value) := h value
    exact hbelow.ofField (Entries.mem_of_field? hvalue)
  · exact .nil

lemma locate_documentIssues (document : Raw) : Locate [] document (documentIssues document) := by
  cases document with
  | dict es =>
    refine .append (locate_noAlternative) (.append (.append (.append ?_ ?_) ?_) ?_)
    · exact locate_field _ fun _ => locate_ofType
    · exact locate_field _ fun _ => locate_ofType
    · exact locate_field _ fun value => locate_componentsIssues value
    · exact locate_field _ fun value => (locate_schemas value _).2.1
  | _ => exact locate_notOfType

lemma mem_orderedIssues_iff {document : Raw} {i : EnvelopeIssue} :
    i ∈ orderedIssues document ↔ i ∈ documentIssues document :=
  (List.mergeSort_perm _ _).mem_iff

lemma mem_issues_iff {document : Raw} {is : List EnvelopeIssue} (h : issues document = .ok is)
    {i : EnvelopeIssue} : i ∈ is ↔ i ∈ documentIssues document := by
  rw [← (issues_eq_ok_iff.mp h).2, mem_orderedIssues_iff]

/-- Every issue of a document stands at a value in it. -/
lemma exists_standsAt_of_mem_issues {document : Raw} {is : List EnvelopeIssue}
    (h : issues document = .ok is) {i : EnvelopeIssue} (hi : i ∈ is) :
    ∃ steps target, i.StandsAt document steps target := by
  obtain ⟨steps, target, hpath, hdescends, htells⟩ :=
    locate_documentIssues document i ((mem_issues_iff h).mp hi)
  exact ⟨steps, target, hpath, hdescends, htells⟩

/-- The path of every issue of a text-keyed document is a route. -/
theorem exists_route_of_mem_issues {document : Raw} (hkeyed : document.isTextKeyed = true)
    {is : List EnvelopeIssue} (h : issues document = .ok is) {i : EnvelopeIssue} (hi : i ∈ is) :
    ∃ target, document.Route i.path target := by
  obtain ⟨steps, target, hstands⟩ := exists_standsAt_of_mem_issues h hi
  exact ⟨target, hstands.path ▸ hstands.descends.route hkeyed⟩

@[simp] lemma segments_pointer (i : EnvelopeIssue) : i.pointer.segments = i.path :=
  Pointer.segments_root_join i.path

/-- The examination of a document succeeds exactly if the values that it shows, which are parts of
the document, are short enough to be written. Then the document has no issue in its envelope exactly
if it is of the grammar. Every issue tells of a value of the document, and its pointer has the
segments of steps that lead down to the value. So the pointer addresses the value, unless the null
key is on the way. -/
theorem issues_tell_departures (document : Raw) :
    ((∃ is, issues document = .ok is) ↔ ∀ r ∈ documentShown document, r.isWritable = true)
    ∧ (∀ r ∈ documentShown document, r ∈ document.parts)
    ∧ ∀ is, issues document = .ok is →
      (is = [] ↔ IsDocument document)
      ∧ ∀ i ∈ is, ∃ steps target, i.StandsAt document steps target
        ∧ i.pointer.segments = steps.flatMap Step.segments
        ∧ (.key .null ∉ steps → target ∈ document.addressed i.pointer.segments) := by
  refine ⟨?_, areParts_documentShown document, fun is his => ⟨?_, fun i hi => ?_⟩⟩
  · simp [issues_eq_ok_iff]
  · rw [← documentIssues_eq_nil_iff, ← orderedIssues_eq_nil_iff, (issues_eq_ok_iff.mp his).2]
  obtain ⟨steps, target, hstands⟩ := exists_standsAt_of_mem_issues his hi
  have hsegments : i.pointer.segments = steps.flatMap Step.segments := by
    rw [segments_pointer, hstands.path]
  refine ⟨steps, target, hstands, hsegments, fun hnull => ?_⟩
  rw [hsegments]
  exact hstands.descends.mem_addressed hnull

/-- A document in which statuses are names of schemas, one of them a composition with a number among
its members. -/
def statusDocument : Raw :=
  .ofFields [("swagger", .int 2), ("definitions", .dict [(.int 200, .ofFields
    [("oneOf", .list [.ofFields [("type", .str "string")], .int 5])])])]

theorem issues_tell_departures_statuses :
    ∃ is, issues statusDocument = .ok is ∧ ¬IsDocument statusDocument
      ∧ ∃ i ∈ is, i.pointer = "#/definitions/200/oneOf/1"
        ∧ ∃ target ∈ statusDocument.addressed i.pointer.segments, i.TellsOf target := by
  obtain ⟨hexamined, -, hissues⟩ := issues_tell_departures statusDocument
  obtain ⟨is, his⟩ := hexamined.mpr (by decide +kernel)
  obtain ⟨haccepted, hissues⟩ := hissues is his
  have hfound : documentIssues statusDocument
      = [⟨["definitions", "200", "oneOf", "1"], "5 is not of type 'object'"⟩] := by
    decide +kernel
  have hmem := (mem_issues_iff his).mpr (hfound ▸ List.mem_singleton_self _)
  obtain ⟨steps, target, hstands, -, haddressed⟩ := hissues _ hmem
  have hnull : Raw.null ∉ statusDocument.parts := by
    simp [statusDocument, Raw.ofFields, Raw.parts, Raw.partsOfEntries, Raw.partsOfAll]
  refine ⟨is, his, fun hdocument => ?_, _, hmem, by decide +kernel, target,
    haddressed fun hkey => hnull (hstands.descends.mem_parts_of_key hkey), hstands.tellsOf⟩
  rw [haccepted.mpr hdocument] at hmem
  cases hmem

/-- A document with a schema under the null key, whose type is no name of a type. -/
def namelessDocument : Raw :=
  .ofFields [("openapi", .str "3.0.0"), ("components", .ofFields [("schemas",
    .dict [(.null, .ofFields [("type", .str "dog")])])])]

/-- The pointer of an issue below the null key leads nowhere in the document. -/
theorem issue_below_null_leads_nowhere :
    ∃ is, issues namelessDocument = .ok is ∧ ∃ i ∈ is,
      i.pointer = "#/components/schemas/type"
      ∧ namelessDocument.addressed i.pointer.segments = [] := by
  have hfound : documentIssues namelessDocument = [⟨["components", "schemas", "type"],
      "'dog' is not one of ['string', 'number', 'integer', 'boolean', 'object', 'array']"⟩] := by
    decide +kernel
  have his : issues namelessDocument = .ok (orderedIssues namelessDocument) :=
    issues_eq_ok_of_isWritable (by decide +kernel)
  refine ⟨_, his, _, (mem_issues_iff his).mpr (hfound ▸ List.mem_singleton_self _),
    by decide +kernel, ?_⟩
  rw [segments_pointer]
  rfl

end Envelope

end ApiLint
