import ApiLint.Proofs.Document.Outline

/-!
# Reading schemas from a document

What a successful reading of a raw schema says about it. The schema that is read declares what the
raw schema writes, and its children are read from the raw schemas below it, in the same order.
Nothing depends on the pointer under which the schema is read: that is for errors alone.
-/

namespace ApiLint

/-! ### Outcomes -/

lemma bind_eq_ok_iff {ε α β : Type} {x : Except ε α} {f : α → Except ε β} {b : β} :
    x >>= f = .ok b ↔ ∃ a, x = .ok a ∧ f a = .ok b := by
  cases x <;> simp [bind, Except.bind]

lemma exists_ok_of_isSome {ε α : Type} {x : Except ε α} (h : x.toOption.isSome = true) :
    ∃ a, x = .ok a := by
  cases x with
  | error e => cases h
  | ok a => exact ⟨a, rfl⟩

lemma exists_ok_of_any {ε α : Type} {x : Except ε α} {p : α → Bool}
    (h : x.toOption.any p = true) : ∃ a, x = .ok a ∧ p a = true := by
  cases x with
  | error e => cases h
  | ok a => exact ⟨a, rfl, h⟩

lemma map_bind_except {ε α β γ : Type} (x : Except ε α) (f : α → β) (g : β → Except ε γ) :
    x.map f >>= g = x >>= fun a => g (f a) := by
  cases x <;> rfl

lemma bind_congr_except {ε α β : Type} {x : Except ε α} {f g : α → Except ε β}
    (h : ∀ a, x = .ok a → f a = g a) : x >>= f = x >>= g := by
  cases x with
  | error e => rfl
  | ok a => exact h a rfl

lemma map_eq_ok_iff {ε α β : Type} {x : Except ε α} {f : α → β} {b : β} :
    x.map f = .ok b ↔ ∃ a, x = .ok a ∧ f a = b := by
  cases x <;> simp [Except.map]

lemma mapError_eq_ok_iff {ε ε' α : Type} {x : Except ε α} {f : ε → ε'} {a : α} :
    x.mapError f = .ok a ↔ x = .ok a := by
  cases x <;> simp [Except.mapError]

namespace Fields

variable {α : Type} {fs : Fields α}

lemma find?_eq_none_iff {name : String} : fs.find? name = none ↔ name ∉ fs.names := by
  induction fs with
  | nil => simp [find?, names]
  | cons f fs ih =>
    rw [names] at ih ⊢
    by_cases h : f.1 = name
    · simp [find?, h]
    · simp [find?, h, Ne.symm h, ih]

/-- Of fields with distinct names, each is found by its name. -/
lemma find?_of_mem (h : fs.names.Nodup) {f : String × α} (hf : f ∈ fs) :
    fs.find? f.1 = some f.2 := by
  induction fs with
  | nil => cases hf
  | cons first fs ih =>
    rw [names, List.map_cons, List.nodup_cons] at h
    rcases List.mem_cons.mp hf with rfl | hf
    · rw [find?, if_pos rfl]
    · have hne : first.1 ≠ f.1 := fun heq => h.1 (heq ▸ List.mem_map_of_mem hf)
      rw [find?, if_neg hne, ih h.2 hf]

/-- A field with a new name goes to the end. -/
lemma insert_of_notMem {name : String} (h : name ∉ fs.names) (value : α) :
    fs.insert name value = fs ++ [(name, value)] := by
  induction fs with
  | nil => rfl
  | cons f fs ih =>
    simp only [names, List.map_cons, List.mem_cons, not_or] at h
    rw [insert, if_neg (Ne.symm h.1), ih h.2, List.cons_append]

/-- A table is the fields that it is made of, if their names are distinct. -/
lemma merge_eq_append {gs : Fields α} (h : (names (fs ++ gs)).Nodup) : merge fs gs = fs ++ gs := by
  induction gs generalizing fs with
  | nil => simp [merge]
  | cons g gs ih =>
    have hnew : g.1 ∉ names fs := by
      intro hmem
      simp only [names, List.map_append, List.map_cons, List.nodup_append] at h
      exact h.2.2 _ hmem _ (List.mem_cons_self ..) rfl
    calc merge fs (g :: gs) = merge (insert fs g.1 g.2) gs := rfl
      _ = merge (fs ++ [g]) gs := by rw [insert_of_notMem hnew]
      _ = fs ++ [g] ++ gs := ih (by simpa using h)
      _ = fs ++ g :: gs := by rw [List.append_assoc, List.singleton_append]

end Fields

namespace Components

variable {cs : Components}

/-! ### Values that are no collections -/

section

variable {raw : Raw}

lemma schemaAt_of_not_dict (h : ∀ es, raw ≠ .dict es) (pointer : Pointer) :
    cs.schemaAt pointer raw = notMapping pointer raw := by
  rw [schemaAt]
  exact h

lemma propertiesAt_of_not_dict (h : ∀ es, raw ≠ .dict es) (pointer : Pointer) :
    cs.propertiesAt pointer raw = (entriesOf raw).map fun _ => [] := by
  rw [propertiesAt]
  exact h

lemma membersAt_of_not_list (h : ∀ raws, raw ≠ .list raws) (pointer : Pointer) :
    cs.membersAt pointer raw = elementsOf raw >>= fun elements =>
      elements.head?.elim (.ok []) (notMapping (pointer.push (writtenNat 0))) := by
  rw [membersAt]
  · apply bind_congr_except
    intro elements _
    cases elements <;> rfl
  · exact h

lemma literalAt_plain (hlist : ∀ items, raw ≠ .list items) (hdict : ∀ es, raw ≠ .dict es)
    (schema : Raw) (depth : Nat) :
    cs.literalAt schema depth raw
      = if LoadError.literalDepthLimit < depth then .error .literalTooDeep
        else plainLiteral (cs.governing? schema) raw := by
  rw [literalAt]
  · exact hlist
  · exact hdict

end

/-! ### Parts of a raw schema -/

/-- The parts of a raw schema stand under their keywords. -/
lemma partsAt_eq (pointer : Pointer) (es : Entries) :
    cs.partsAt pointer es =
      { properties := cs.propertiesAt (pointer.push "properties") (es.field "properties")
        items :=
          if (es.field "items").isNull then .ok none
          else (cs.schemaAt (pointer.push "items") (es.field "items")).map some
        additional :=
          if (es.field "additionalProperties").isMapping then
            (cs.schemaAt (pointer.push "additionalProperties")
              (es.field "additionalProperties")).map some
          else .ok none
        oneOf := cs.membersAt (pointer.push "oneOf") (es.field "oneOf")
        anyOf := cs.membersAt (pointer.push "anyOf") (es.field "anyOf")
        allOf := cs.membersAt (pointer.push "allOf") (es.field "allOf") } := by
  induction es with
  | nil => rfl
  | cons e es ih =>
    obtain ⟨key, raw⟩ := e
    have hself : ∀ name, Entries.field ((.str name, raw) :: es) name = raw := fun name =>
      Entries.field_of_field? (Entries.field?_cons_self ..)
    have hother : ∀ name, key ≠ .str name →
        Entries.field ((key, raw) :: es) name = Entries.field es name := by
      intro name hname
      rw [Entries.field, Entries.field?_cons_of_ne hname, Entries.field]
    rw [partsAt.eq_def]
    dsimp only
    split
    · simp [ih, hself, hother]
    · simp [ih, hself, hother]
    · simp [ih, hself, hother]
    · simp [ih, hself, hother]
    · simp [ih, hself, hother]
    · simp [ih, hself, hother]
    · next hproperties hitems hadditional honeOf hanyOf hallOf =>
      rw [hother _ hproperties, hother _ hitems, hother _ hadditional, hother _ honeOf,
        hother _ hanyOf, hother _ hallOf, ← ih]

/-- Names can be asked for where all of them are short enough to be written. -/
lemma requireNames_eq_ok_iff {rs : List Raw} :
    requireNames rs = .ok () ↔ ∀ r ∈ rs, r.isWritable = true := by
  rw [requireNames, mapError_eq_ok_iff, Raw.requireTexts_eq_ok_iff]

lemma requiredNames_eq_ok_iff {es : Entries} {required : List String} :
    requiredNames es = .ok required ↔
      ∃ elements, elementsOf (es.field "required") = .ok elements
        ∧ (∀ r ∈ elements, r.isWritable = true)
        ∧ sortedNames (elements.map Raw.text) = required := by
  simp only [requiredNames, bind_eq_ok_iff, ← requireNames_eq_ok_iff, pure, Except.pure,
    Except.ok.injEq]
  exact exists_congr fun _ => and_congr_right fun _ => ⟨fun ⟨_, h⟩ => h, fun h => ⟨(), h⟩⟩

/-- A raw schema that is read as a schema, under some pointer. -/
def Builds (cs : Components) (raw : Raw) (schema : Schema) : Prop :=
  ∃ pointer, cs.schemaAt pointer raw = .ok schema

lemma namedSchemasAt_builds {pointer : Pointer} {es : Entries} {schemas : List (String × Schema)}
    (h : cs.namedSchemasAt pointer es = .ok schemas) :
    List.Forall₂ (fun e s => e.1.text = s.1 ∧ cs.Builds e.2 s.2) es schemas := by
  induction es generalizing schemas with
  | nil =>
    rw [namedSchemasAt] at h
    cases h
    exact .nil
  | cons e es ih =>
    rw [namedSchemasAt] at h
    obtain ⟨_, -, h⟩ := bind_eq_ok_iff.mp h
    obtain ⟨schema, hschema, h⟩ := bind_eq_ok_iff.mp h
    obtain ⟨rest, hrest, h⟩ := bind_eq_ok_iff.mp h
    cases h
    exact .cons ⟨rfl, _, hschema⟩ (ih hrest)

lemma schemasAt_builds {pointer : Pointer} {index : Nat} {raws : List Raw} {schemas : List Schema}
    (h : cs.schemasAt pointer index raws = .ok schemas) :
    List.Forall₂ cs.Builds raws schemas := by
  induction raws generalizing index schemas with
  | nil =>
    rw [schemasAt] at h
    cases h
    exact .nil
  | cons raw raws ih =>
    rw [schemasAt] at h
    obtain ⟨schema, hschema, h⟩ := bind_eq_ok_iff.mp h
    obtain ⟨rest, hrest, h⟩ := bind_eq_ok_iff.mp h
    cases h
    exact .cons ⟨_, hschema⟩ (ih hrest)

lemma propertiesAt_builds {pointer : Pointer} {es : Entries} {schemas : List (String × Schema)}
    (h : cs.propertiesAt pointer (es.field "properties") = .ok schemas) :
    List.Forall₂ (fun e s => e.1.text = s.1 ∧ cs.Builds e.2 s.2) (es.mappingAt "properties")
      schemas := by
  unfold Entries.mappingAt
  split
  · next entries heq =>
    rw [heq, propertiesAt] at h
    exact namedSchemasAt_builds h
  · next hnot =>
    rw [propertiesAt_of_not_dict hnot] at h
    obtain ⟨_, _, rfl⟩ := map_eq_ok_iff.mp h
    exact .nil

lemma membersAt_builds {pointer : Pointer} {es : Entries} {name : String} {schemas : List Schema}
    (h : cs.membersAt pointer (es.field name) = .ok schemas) :
    List.Forall₂ cs.Builds (es.listAt name) schemas := by
  unfold Entries.listAt
  split
  · next items heq =>
    rw [heq, membersAt] at h
    exact schemasAt_builds h
  · next hnot =>
    rw [membersAt_of_not_list hnot] at h
    obtain ⟨elements, _, h⟩ := bind_eq_ok_iff.mp h
    cases elements with
    | nil => cases h; exact .nil
    | cons first rest => cases h

/-! ### Literals -/

/-- A schema that declares what a raw schema writes, apart from its children. -/
structure Declares {σ : Type} (cs : Components) (es : Entries) (node : SchemaNode σ) : Prop where
  type : node.type = es.field "type"
  format : node.format = es.field "format"
  nullable : node.nullable = es.outline.nullable
  required : node.required = es.outline.required
  discriminator : node.discriminator = es.outline.discriminator
  literals : List.Forall₂ (fun x y => x.1 = y.1 ∧ cs.literal es x.2 = .ok y.2) es.rawLiterals
    node.literals

lemma literals_eq_ok {es : Entries} {raws : List Raw} {values : List Literal}
    (h : cs.literals es raws = .ok values) :
    List.Forall₂ (fun raw value => cs.literal es raw = .ok value) raws values := by
  induction raws generalizing values with
  | nil => cases h; exact .nil
  | cons raw raws ih =>
    rw [literals] at h
    obtain ⟨value, hvalue, h⟩ := bind_eq_ok_iff.mp h
    obtain ⟨rest, hrest, h⟩ := bind_eq_ok_iff.mp h
    cases h
    exact .cons hvalue (ih hrest)

/-- What a node has for a literal once this is read: the literal that is written under a name, or
what the node had before, if none is. -/
def ReadsSlot (cs : Components) (es : Entries) (name : String) (kept result : Option Literal) :
    Prop :=
  es.field? name = none ∧ result = kept
    ∨ ∃ raw value, es.field? name = some raw ∧ cs.literal es raw = .ok value ∧ result = some value

lemma ReadsSlot.forall₂ {es : Entries} {name : String} {result : Option Literal}
    (h : cs.ReadsSlot es name none result) :
    List.Forall₂ (fun x y => x.1 = y.1 ∧ cs.literal es x.2 = .ok y.2)
      ((es.field? name).toList.map fun raw => ([name], raw))
      (result.toList.map fun value => ([name], value)) := by
  rcases h with ⟨hnone, rfl⟩ | ⟨raw, value, hsome, hvalue, rfl⟩
  · rw [hnone]
    exact .nil
  · rw [hsome]
    exact .cons ⟨rfl, hvalue⟩ .nil

/-- A literal is converted and set before anything else happens. -/
lemma readsSlot_of_eq_ok {es : Entries} {name : String} (set : Option Literal → SchemaNode Schema)
    (kept : Option Literal) {last : SchemaNode Schema}
    {next : SchemaNode Schema → Except LoadError (SchemaNode Schema)}
    (h : (match es.field? name with
      | some raw => do next (← pure (set (some (← cs.literal es raw))))
      | none => do next (← pure (set kept))) = .ok last) :
    ∃ result, next (set result) = .ok last ∧ cs.ReadsSlot es name kept result := by
  cases hfield : es.field? name with
  | none =>
    rw [hfield] at h
    exact ⟨kept, h, .inl ⟨hfield, rfl⟩⟩
  | some raw =>
    rw [hfield] at h
    obtain ⟨value, hvalue, h⟩ := bind_eq_ok_iff.mp h
    exact ⟨some value, h, .inr ⟨raw, value, hfield, hvalue, rfl⟩⟩

/-- The literals of a raw schema are read in turn; the rest of the node stays as it is. -/
lemma withLiterals_eq_ok {es : Entries} {node node' : SchemaNode Schema}
    (h : cs.withLiterals es node = .ok node') :
    ∃ first second values,
      node' = { node with defaultValue := first, exampleValue := second, enumValues := values }
      ∧ cs.ReadsSlot es "default" node.defaultValue first
      ∧ cs.ReadsSlot es "example" node.exampleValue second
      ∧ List.Forall₂ (fun raw value => cs.literal es raw = .ok value) (es.elementsAt "enum")
        values := by
  rw [withLiterals] at h
  obtain ⟨first, h, hfirst⟩ := readsSlot_of_eq_ok
    (fun value => { node with defaultValue := value }) node.defaultValue h
  obtain ⟨second, h, hsecond⟩ := readsSlot_of_eq_ok
    (fun value => { node with defaultValue := first, exampleValue := value }) node.exampleValue h
  obtain ⟨elements, helements, h⟩ := bind_eq_ok_iff.mp h
  obtain ⟨values, hvalues, h⟩ := bind_eq_ok_iff.mp h
  cases h
  refine ⟨first, second, values, rfl, hfirst, hsecond, ?_⟩
  rw [Entries.elementsAt, helements]
  exact literals_eq_ok hvalues

/-- Read into a node without literals, they are those of the raw schema, in order. -/
lemma forall₂_literals {es : Entries} {node : SchemaNode Schema}
    (hdefault : cs.ReadsSlot es "default" none node.defaultValue)
    (hexample : cs.ReadsSlot es "example" none node.exampleValue)
    (henum : List.Forall₂ (fun raw value => cs.literal es raw = .ok value) (es.elementsAt "enum")
      node.enumValues) :
    List.Forall₂ (fun x y => x.1 = y.1 ∧ cs.literal es x.2 = .ok y.2) es.rawLiterals
      node.literals :=
  List.rel_append (List.rel_append hdefault.forall₂ hexample.forall₂)
    (forall₂_mapIdx henum fun _ _ _ hvalue => ⟨rfl, hvalue⟩)

/-! ### One schema -/

lemma discriminatorOf_eq_ok {pointer : Pointer} {raw : Raw} {discriminator : Option Discriminator}
    (h : discriminatorOf pointer raw = .ok discriminator) :
    (discriminatorOf Pointer.root raw).toOption.join = discriminator := by
  unfold discriminatorOf at h ⊢
  split at h
  · cases h; rfl
  · cases h; rfl
  · split at h
    · obtain ⟨mapping, hmapping, h⟩ := bind_eq_ok_iff.mp h
      obtain ⟨_, hnames, h⟩ := bind_eq_ok_iff.mp h
      cases h
      simp_all [bind, Except.bind, pure, Except.pure, Except.toOption]
    · cases h
  · cases h

lemma names_of_forall₂ {σ : Type} {R : Raw → σ → Prop} {es : Entries} {fs : Fields σ}
    (h : List.Forall₂ (fun e f => e.1.text = f.1 ∧ R e.2 f.2) es fs) :
    fs.names = es.map fun e => e.1.text := by
  induction h with
  | nil => rfl
  | cons head _ ih =>
    rw [Fields.names] at ih ⊢
    rw [List.map_cons, List.map_cons, ih, head.1]

/-- A node besides which another one is read: what is read stands after what was there, or in its
place. -/
def joined (node read : SchemaNode Schema) : SchemaNode Schema :=
  { read with
    properties := Fields.merge node.properties read.properties
    items := read.items <|> node.items
    additional := read.additional <|> node.additional
    oneOf := node.oneOf ++ read.oneOf
    anyOf := node.anyOf ++ read.anyOf
    allOf := node.allOf ++ read.allOf
    defaultValue := node.defaultValue
    exampleValue := node.exampleValue
    enumValues := node.enumValues
    reference := node.reference }

/-- A schema that agrees with the outline of a raw schema in all that is neither a child nor a
literal. -/
structure HasHead {σ : Type} (es : Entries) (node : SchemaNode σ) : Prop where
  type : node.type = es.field "type"
  format : node.format = es.field "format"
  nullable : node.nullable = es.outline.nullable
  required : node.required = es.outline.required
  discriminator : node.discriminator = es.outline.discriminator

/-- The children that are read for a raw schema are read from the raw schemas below it, and the
literals of the raw schema are the last to be read. -/
lemma exists_read_of_fill {pointer : Pointer} {node node' : SchemaNode Schema} {es : Entries}
    (h : cs.fill pointer node es (cs.partsAt pointer es) = .ok node') :
    ∃ read, HasHead es read ∧ SchemaNode.Similar cs.Builds es.outline read
      ∧ cs.withLiterals es (joined node read) = .ok node' := by
  rw [fill, partsAt_eq] at h
  obtain ⟨required, hrequired, h⟩ := bind_eq_ok_iff.mp h
  obtain ⟨properties, hproperties, h⟩ := bind_eq_ok_iff.mp h
  obtain ⟨items, hitems, h⟩ := bind_eq_ok_iff.mp h
  obtain ⟨additional, hadditional, h⟩ := bind_eq_ok_iff.mp h
  obtain ⟨oneOf, honeOf, h⟩ := bind_eq_ok_iff.mp h
  obtain ⟨anyOf, hanyOf, h⟩ := bind_eq_ok_iff.mp h
  obtain ⟨allOf, hallOf, h⟩ := bind_eq_ok_iff.mp h
  obtain ⟨discriminator, hdiscriminator, h⟩ := bind_eq_ok_iff.mp h
  obtain ⟨elements, helements, -, rfl⟩ := requiredNames_eq_ok_iff.mp hrequired
  refine ⟨{ withHead es .blank with
      required := sortedNames (elements.map Raw.text)
      properties, items, additional, oneOf, anyOf, allOf, discriminator },
    ⟨rfl, rfl, rfl, ?_, (discriminatorOf_eq_ok hdiscriminator).symm⟩,
    SchemaNode.similar_iff.mpr ⟨?_, ?_, ?_, ?_⟩, h⟩
  · simp [Entries.outline, Entries.elementsAt, helements, Except.toOption]
  · exact List.forall₂_map_left_iff.mpr (propertiesAt_builds hproperties)
  · dsimp only at hitems
    simp only [Entries.outline]
    split at hitems
    · next hnull =>
      cases hitems
      simp [hnull]
    · next hnull =>
      obtain ⟨schema, hschema, rfl⟩ := map_eq_ok_iff.mp hitems
      simpa [hnull] using ⟨_, hschema⟩
  · dsimp only at hadditional
    simp only [Entries.outline]
    split at hadditional
    · next hmapping =>
      obtain ⟨schema, hschema, rfl⟩ := map_eq_ok_iff.mp hadditional
      simpa [hmapping] using ⟨_, hschema⟩
    · next hmapping =>
      cases hadditional
      simp [hmapping]
  · rintro (_ | _ | _)
    · exact membersAt_builds honeOf
    · exact membersAt_builds hanyOf
    · exact membersAt_builds hallOf

/-- Reading leaves the name of a node as it is. -/
lemma reference_fill {pointer : Pointer} {node node' : SchemaNode Schema} {es : Entries}
    (h : cs.fill pointer node es (cs.partsAt pointer es) = .ok node') :
    node'.reference = node.reference := by
  obtain ⟨read, -, -, h⟩ := exists_read_of_fill h
  obtain ⟨_, _, _, rfl, -⟩ := withLiterals_eq_ok h
  rfl

/-- A schema that is read from a text-keyed raw schema declares what this writes, and its children
are read from the raw schemas below. -/
lemma fill_eq_ok {pointer : Pointer} {reference : Option String} {es : Entries}
    {node : SchemaNode Schema} (hes : (Raw.dict es).isTextKeyed = true)
    (h : cs.fill pointer { SchemaNode.blank with reference } es (cs.partsAt pointer es)
      = .ok node) :
    node.reference = reference ∧ cs.Declares es node
      ∧ SchemaNode.Similar cs.Builds es.outline node := by
  obtain ⟨read, hhead, hsimilar, h⟩ := exists_read_of_fill h
  obtain ⟨first, second, values, rfl, hdefault, hexample, henum⟩ := withLiterals_eq_ok h
  obtain ⟨hproperties, hitems, hadditional, hmembers⟩ := SchemaNode.similar_iff.mp hsimilar
  -- The names of the properties are distinct texts, so nothing is merged away.
  have hmerge : Fields.merge [] read.properties = read.properties := by
    refine Fields.merge_eq_append ?_
    rw [List.nil_append, names_of_forall₂ (List.forall₂_map_left_iff.mp hproperties)]
    exact Raw.nodup_names (Entries.isTextKeyed_mappingAt hes "properties")
  refine ⟨rfl, ⟨hhead.type, hhead.format, hhead.nullable, hhead.required, hhead.discriminator,
    forall₂_literals hdefault hexample henum⟩, SchemaNode.similar_iff.mpr ⟨?_, ?_, ?_, ?_⟩⟩
  · change List.Forall₂ _ _ (Fields.merge [] read.properties)
    rw [hmerge]
    exact hproperties
  · simpa [joined, SchemaNode.blank] using hitems
  · simpa [joined, SchemaNode.blank] using hadditional
  · rintro (_ | _ | _)
    · exact hmembers .oneOf
    · exact hmembers .anyOf
    · exact hmembers .allOf

lemma resolve_eq_ok {pointer : Pointer} {reference : Raw} {name : String}
    (h : cs.resolve pointer reference = .ok name) :
    ∃ text, reference = .str text ∧ cs.referenceName? text = some name ∧ name ∈ cs.names := by
  unfold resolve at h
  split at h
  · next text =>
    split at h
    · cases h
    · next found hfound =>
      split at h
      · next hmem =>
        cases h
        exact ⟨text, rfl, hfound, hmem⟩
      · cases h
  · cases h

/-- A reference is read as the component that it names. -/
lemma builds_reference {es : Entries} {reference : Raw} {schema : Schema}
    (hreference : es.field? "$ref" = some reference) (h : cs.Builds (.dict es) schema) :
    ∃ text name, reference = .str text ∧ cs.referenceName? text = some name ∧ name ∈ cs.names
      ∧ schema = .component name := by
  obtain ⟨pointer, h⟩ := h
  rw [schemaAt, hreference] at h
  obtain ⟨name, hname, rfl⟩ := map_eq_ok_iff.mp h
  obtain ⟨text, rfl, hfound, hmem⟩ := resolve_eq_ok hname
  exact ⟨text, name, rfl, hfound, hmem, rfl⟩

/-- A raw schema in line is read as a schema in line. -/
lemma builds_inline {es : Entries} {schema : Schema} (hes : (Raw.dict es).isTextKeyed = true)
    (hreference : es.field? "$ref" = none) (h : cs.Builds (.dict es) schema) :
    ∃ node, schema = .inline node ∧ node.reference = none ∧ cs.Declares es node
      ∧ SchemaNode.Similar cs.Builds es.outline node := by
  obtain ⟨pointer, h⟩ := h
  rw [schemaAt, hreference] at h
  obtain ⟨node, hnode, rfl⟩ := map_eq_ok_iff.mp h
  exact ⟨node, rfl, fill_eq_ok hes hnode⟩

/-- Only mappings are read as schemas. -/
lemma exists_dict_of_builds {raw : Raw} {schema : Schema} (h : cs.Builds raw schema) :
    ∃ es, raw = .dict es := by
  obtain ⟨pointer, h⟩ := h
  cases raw with
  | dict es => exact ⟨es, rfl⟩
  | _ => simp [schemaAt, notMapping] at h

end Components

/-- A document is loaded if it has components, whose names can all be written, and these are. -/
lemma LoadedDocument.ofRaw_eq_ok_iff {document : Raw} {d : LoadedDocument} :
    ofRaw document = .ok d ↔ ∃ cs, Components.ofDocument document = .ok cs
      ∧ (∀ e ∈ cs.entries, e.1.isWritable = true)
      ∧ cs.load cs.entries { version := cs.version } = .ok d := by
  rw [ofRaw, bind_eq_ok_iff]
  refine exists_congr fun cs => and_congr_right fun _ => ?_
  rw [bind_eq_ok_iff, ← List.forall_mem_map (P := fun key : Raw => key.isWritable = true),
    ← Components.requireNames_eq_ok_iff]
  exact ⟨fun ⟨_, hnames, hload⟩ => ⟨hnames, hload⟩, fun ⟨hnames, hload⟩ => ⟨(), hnames, hload⟩⟩

end ApiLint
