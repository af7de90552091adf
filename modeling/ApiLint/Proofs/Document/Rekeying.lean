import ApiLint.Proofs.Document.Rendering
import ApiLint.Proofs.Raw.Rekeying
import ApiLint.Proofs.Schema.Sound

/-!
# Rekeyed documents are loaded alike

Loading takes the names of components, of properties and of the members of literals from the texts
of the keys, but it looks for what governs a literal, and for the end of an alias, under the name
itself. If each name that is looked up so is either a key or not the text of any, then a document
and the rekeyed document give the same schemas, or the same error.
-/

namespace ApiLint

namespace Components

/-- The components under their names. -/
def rekey (cs : Components) : Components :=
  { cs with entries := Raw.rekeyEntries .schemaMap cs.entries }

variable {cs : Components}

lemma names_rekey : cs.rekey.names = cs.names := Raw.names_rekeyEntries rfl cs.entries

lemma length_rekey : cs.rekey.entries.length = cs.entries.length := by
  have hnames : cs.rekey.names = cs.names := names_rekey
  simpa [names] using congrArg List.length hnames

lemma pointerTo_rekey (name : String) : cs.rekey.pointerTo name = cs.pointerTo name := rfl

lemma resolve_rekey (pointer : Pointer) (reference : Raw) :
    cs.rekey.resolve pointer reference = cs.resolve pointer reference := by
  cases reference with
  | str text =>
    rw [resolve, resolve, names_rekey]
    rfl
  | _ => rfl

lemma reference?_rekey (raw : Raw) : reference? (raw.rekey .schema) = reference? raw := by
  cases raw with
  | dict es => exact Entries.field?_rekeyEntries_plain rfl rfl rfl
  | _ => rfl

/-- The names of components are asked for alike, if they can be written. -/
lemma requireNames_rekey (h : ∀ e ∈ cs.entries, e.1.isWritable = true) :
    requireNames (cs.rekey.entries.map (·.1)) = requireNames (cs.entries.map (·.1)) := by
  have hkeys : ∀ es : Entries, (Raw.rekeyEntries .schemaMap es).map (·.1)
      = es.map fun e => .str e.1.text := by
    intro es
    induction es with
    | nil => rfl
    | cons e es ih => simp [Raw.rekeyEntries, Role.isNamed, ih]
  have hnames : ∀ r ∈ cs.entries.map (·.1), r.isWritable = true := by simpa using h
  rw [requireNames_eq_ok_iff.mpr hnames, rekey, hkeys, requireNames_eq_ok_iff]
  exact List.forall_mem_map.mpr fun _ _ => rfl

/-- The body of a component is the same up to rekeying, if its name is not the text of another
key. -/
lemma field?_rekey {name : String} (h : Entries.IsOwnKey cs.entries name) :
    Entries.field? cs.rekey.entries name
      = (Entries.field? cs.entries name).map (Raw.rekey .schema) := by
  rw [rekey, Entries.field?_rekeyEntries_of_isOwnKey rfl h, Role.under_schemaMap]

lemma field_rekey {name : String} (h : Entries.IsOwnKey cs.entries name) :
    Entries.field cs.rekey.entries name = (Entries.field cs.entries name).rekey .schema := by
  rw [Entries.field, field?_rekey h, Entries.field]
  cases Entries.field? cs.entries name <;> rfl

/-! ### What governs a literal -/

/-- References that lead from one raw schema to another. -/
inductive Follows (cs : Components) : Raw → Raw → Prop
  | refl (raw : Raw) : Follows cs raw raw
  | step {raw last : Raw} {name : String} (hname : cs.referredName? raw = some name)
      (h : Follows cs (Entries.field cs.entries name) last) : Follows cs raw last

lemma Follows.eq_of_referredName? {raw last : Raw} (hname : cs.referredName? raw = none)
    (h : cs.Follows raw last) : last = raw := by
  cases h with
  | refl => rfl
  | step hsome => simp [hname] at hsome

/-- The raw schemas that govern the parts of a literal, if the literal is governed by a raw schema.
-/
inductive ReadsWith (cs : Components) : Raw → Raw → Raw → Raw → Prop
  | refl (schema raw : Raw) : ReadsWith cs schema raw schema raw
  | item {schema raw below part : Raw} {raws : List Raw} (hraw : raw ∈ raws)
      (h : ReadsWith cs (itemSchema (cs.governing? schema)) raw below part) :
      ReadsWith cs schema (.list raws) below part
  | member {schema member below part : Raw} {es : Entries} {e : Raw × Raw} (he : e ∈ es)
      (hmember : memberSchema (cs.governing? schema) e.1.text = .ok member)
      (h : ReadsWith cs member e.2 below part) : ReadsWith cs schema (.dict es) below part

/-- A literal under a raw schema for which no name is looked up that is the text of another key. -/
structure FindsNames (cs : Components) (schema raw : Raw) : Prop where
  reference : ∀ below part, cs.ReadsWith schema raw below part → ∀ last, cs.Follows below last →
    ∀ name, cs.referredName? last = some name → Entries.IsOwnKey cs.entries name
  property : ∀ below part, cs.ReadsWith schema raw below (.dict part) → ∀ es,
    cs.governing? below = some es → ∀ e ∈ part, (es.mappingAt "properties").IsOwnKey e.1.text

lemma FindsNames.item {schema raw : Raw} {raws : List Raw} (h : cs.FindsNames schema (.list raws))
    (hraw : raw ∈ raws) : cs.FindsNames (itemSchema (cs.governing? schema)) raw where
  reference below part hreads := h.reference below part (.item hraw hreads)
  property below part hreads := h.property below part (.item hraw hreads)

lemma FindsNames.member {schema member : Raw} {es : Entries} {e : Raw × Raw}
    (h : cs.FindsNames schema (.dict es)) (he : e ∈ es)
    (hmember : memberSchema (cs.governing? schema) e.1.text = .ok member) :
    cs.FindsNames member e.2 where
  reference below part hreads := h.reference below part (.member he hmember hreads)
  property below part hreads := h.property below part (.member he hmember hreads)

/-- For a literal that has no parts, under a schema that is no reference, no name is looked up. -/
lemma FindsNames.of_scalar {schema raw : Raw} (hschema : cs.referredName? schema = none)
    (hlist : ∀ raws, raw ≠ .list raws) (hdict : ∀ es, raw ≠ .dict es) :
    cs.FindsNames schema raw where
  reference below part hreads last hlast name hname := by
    cases hreads with
    | refl =>
      rw [hlast.eq_of_referredName? hschema, hschema] at hname
      cases hname
    | item => exact absurd rfl (hlist _)
    | member => exact absurd rfl (hdict _)
  property below part hreads := by
    cases hreads with
    | refl => exact absurd rfl (hdict _)
    | item => exact absurd rfl (hlist _)
    | member => exact absurd rfl (hdict _)

/-- A mapping finds its names under a schema that is no reference, if its own keys and its members
do. -/
lemma FindsNames.of_members {schema : Raw} {es : Entries} (hschema : cs.referredName? schema = none)
    (hproperty : ∀ fields, cs.governing? schema = some fields →
      ∀ e ∈ es, (fields.mappingAt "properties").IsOwnKey e.1.text)
    (hmember : ∀ e ∈ es, ∀ member, memberSchema (cs.governing? schema) e.1.text = .ok member →
      cs.FindsNames member e.2) : cs.FindsNames schema (.dict es) where
  reference below part hreads last hlast name hname := by
    cases hreads with
    | refl =>
      rw [hlast.eq_of_referredName? hschema, hschema] at hname
      cases hname
    | member he hfound hbelow =>
      exact (hmember _ he _ hfound).reference below part hbelow last hlast name hname
  property below part hreads := by
    cases hreads with
    | refl => exact hproperty
    | member he hfound hbelow => exact (hmember _ he _ hfound).property below part hbelow

/-- References lead to what governs a literal, up to rekeying. -/
lemma governing?_rekey {raw : Raw} (h : ∀ last, cs.Follows raw last →
      ∀ name, cs.referredName? last = some name → Entries.IsOwnKey cs.entries name) :
    cs.rekey.governing? (raw.rekey .schema)
      = (cs.governing? raw).map (Raw.rekeyEntries .schema) := by
  rw [governing?, governing?, length_rekey]
  -- Both chains may take as many steps, and have seen nothing yet.
  generalize cs.entries.length + 2 = steps
  generalize ([] : List String) = seen
  induction steps generalizing seen raw with
  | zero => rfl
  | succ steps ih =>
    cases raw with
    | dict es =>
      simp only [Raw.rekey, governingFrom]
      rw [Entries.field?_rekeyEntries_plain rfl rfl rfl]
      cases hreference : Entries.field? es "$ref" with
      | none => rfl
      | some reference =>
        cases reference with
        | str text =>
          dsimp only
          split
          · rfl
          · cases hname : cs.referenceName? text with
            | none =>
              rw [show cs.rekey.referenceName? text = none from hname]
              rfl
            | some name =>
              have hreferred : cs.referredName? (.dict es) = some name := by
                simp only [referredName?, reference?, hreference, hname]
              rw [show cs.rekey.referenceName? text = some name from hname]
              dsimp only
              rw [field_rekey (h _ (.refl _) name hreferred)]
              apply ih
              exact fun last hlast => h last (.step hreferred hlast)
        | _ => rfl
    | _ => rfl

lemma itemSchema_rekey (governing : Option Entries) :
    itemSchema (governing.map (Raw.rekeyEntries .schema)) = (itemSchema governing).rekey .schema := by
  cases governing with
  | none => rfl
  | some es => exact Entries.field_rekeyEntries rfl rfl

lemma propertySchema?_of_not_dict {properties : Raw} (h : ∀ es, properties ≠ .dict es)
    (name : String) : propertySchema? name properties = (do
      if properties.isVoid then return none
      if ← properties.searchFor name then throw (.notMapping properties.kindPath "get")
      return none) := by
  rw [propertySchema?]
  exact h

lemma propertySchema?_rekey {es : Entries} {name : String}
    (h : (es.mappingAt "properties").IsOwnKey name) :
    propertySchema? name ((es.field "properties").rekey .schemaMap)
      = (propertySchema? name (es.field "properties")).map (Option.map (Raw.rekey .schema)) := by
  unfold Entries.mappingAt at h
  split at h
  · next entries heq =>
    rw [heq, Raw.rekey, propertySchema?, propertySchema?,
      Entries.field?_rekeyEntries_of_isOwnKey rfl h, Role.under_schemaMap]
    rfl
  · next hnot =>
    rw [Raw.rekey_eq_self rfl hnot, propertySchema?_of_not_dict hnot]
    split
    · rfl
    · cases (es.field "properties").searchFor name with
      | error e => rfl
      | ok found => cases found <;> rfl

lemma memberSchema_rekey {governing : Option Entries} {name : String}
    (h : ∀ es, governing = some es → (es.mappingAt "properties").IsOwnKey name) :
    memberSchema (governing.map (Raw.rekeyEntries .schema)) name
      = (memberSchema governing name).map (Raw.rekey .schema) := by
  cases governing with
  | none => rfl
  | some es =>
    rw [Option.map_some, memberSchema, memberSchema, Entries.field_rekeyEntries rfl rfl,
      Entries.field_rekeyEntries rfl rfl]
    rw [show Role.under .schema (.str "properties") = .schemaMap from rfl,
      propertySchema?_rekey (h es rfl)]
    cases propertySchema? name (es.field "properties") with
    | error e => rfl
    | ok found => cases found <;> rfl

/-! ### Literals -/

/-- A name and the text of its key are asked for alike, if the key can be written. -/
lemma requireNames_text {key : Raw} (h : key.isWritable = true) :
    requireNames [.str key.text] = requireNames [key] := by
  simp [requireNames, Raw.requireTexts, h]

lemma plainLiteral_rekey (governing : Option Entries) {raw : Raw}
    (hnames : raw.writesNames .literal = true) :
    plainLiteral (governing.map (Raw.rekeyEntries .schema)) (raw.rekey .literal)
      = plainLiteral governing raw := by
  cases governing with
  | none =>
    rw [plainLiteral, plainLiteral, Literal.ofRaw_rekey _ _ _ hnames]
    rfl
  | some es =>
    simp only [plainLiteral, Option.map_some, Option.getD_some,
      Literal.ofRaw_rekey _ _ _ hnames]
    rw [Entries.field_rekeyEntries_plain rfl rfl rfl, Entries.field_rekeyEntries_plain rfl rfl rfl]

mutual

/-- A literal and the rekeyed literal are read alike. -/
lemma literalAt_rekey : ∀ (raw : Raw) {schema : Raw} (depth : Nat), cs.FindsNames schema raw →
    raw.writesNames .literal = true →
    cs.rekey.literalAt (schema.rekey .schema) depth (raw.rekey .literal)
      = cs.literalAt schema depth raw
  | .list raws, schema, depth, h, hnames => by
    rw [Raw.rekey, literalAt, literalAt, governing?_rekey (h.reference _ _ (.refl ..)),
      itemSchema_rekey, Role.element_literal,
      literalItems_rekey raws (depth + 1) (fun raw hraw => h.item hraw) hnames]
  | .dict es, schema, depth, h, hnames => by
    rw [Raw.rekey, literalAt, literalAt, governing?_rekey (h.reference _ _ (.refl ..)),
      literalMembers_rekey es (depth + 1) [] (h.property _ _ (.refl ..))
        (fun e he member hmember => h.member he hmember) hnames]
  | .null, _, _, h, hnames | .bool _, _, _, h, hnames | .int _, _, _, h, hnames
  | .float _, _, _, h, hnames | .str _, _, _, h, hnames | .bytes _, _, _, h, hnames
  | .date _, _, _, h, hnames | .dateTime _, _, _, h, hnames | .set _, _, _, h, hnames
  | .pair _ _, _, _, h, hnames => by
    rw [literalAt_plain (by simp [Raw.rekey]) (by simp [Raw.rekey]),
      literalAt_plain (by simp) (by simp), governing?_rekey (h.reference _ _ (.refl ..)),
      plainLiteral_rekey _ hnames]

lemma literalItems_rekey : ∀ (raws : List Raw) {schema : Raw} (depth : Nat),
    (∀ raw ∈ raws, cs.FindsNames schema raw) → Raw.writesAllNames .literal raws = true →
    cs.rekey.literalItems (schema.rekey .schema) depth (Raw.rekeyAll .literal raws)
      = cs.literalItems schema depth raws
  | [], _, _, _, _ => by
    rw [Raw.rekeyAll, literalItems, literalItems]
  | raw :: raws, _, depth, h, hnames => by
    obtain ⟨hraw, hraws⟩ := List.forall_mem_cons.mp h
    rw [Raw.writesAllNames, Bool.and_eq_true] at hnames
    rw [Raw.rekeyAll, literalItems, literalItems, literalAt_rekey raw depth hraw hnames.1,
      literalItems_rekey raws depth hraws hnames.2]

lemma literalMembers_rekey : ∀ (es : List (Raw × Raw)) {governing : Option Entries} (depth : Nat)
    (before : Fields Literal),
    (∀ fields, governing = some fields → ∀ e ∈ es,
      (Entries.mappingAt fields "properties").IsOwnKey e.1.text) →
    (∀ e ∈ es, ∀ member, memberSchema governing e.1.text = .ok member →
      cs.FindsNames member e.2) →
    Raw.writesEntryNames .literal es = true →
    cs.rekey.literalMembers (governing.map (Raw.rekeyEntries .schema)) depth before
        (Raw.rekeyEntries .literal es)
      = cs.literalMembers governing depth before es
  | [], _, _, _, _, _, _ => by
    rw [Raw.rekeyEntries, literalMembers, literalMembers]
  | (key, raw) :: es, governing, depth, before, hproperty, hmember, hnames => by
    obtain ⟨hraw, hes⟩ := List.forall_mem_cons.mp hmember
    simp only [Raw.writesEntryNames, Role.isNamed, if_true, Role.under_literal,
      Bool.and_eq_true] at hnames
    obtain ⟨⟨hkey, hvalue⟩, hrest⟩ := hnames
    have hschema := memberSchema_rekey fun fields hfields =>
      hproperty fields hfields _ (List.mem_cons_self ..)
    simp only [Raw.rekeyEntries, Role.isNamed, if_true, Role.under_literal, literalMembers,
      Raw.text_str]
    rw [requireNames_text hkey, hschema, map_bind_except]
    apply bind_congr_except
    intro _ _
    apply bind_congr_except
    intro member hfound
    rw [literalAt_rekey raw depth (hraw member hfound) hvalue]
    apply bind_congr_except
    intro value _
    refine literalMembers_rekey es depth _ ?_ hes hrest
    exact fun fields hfields e he => hproperty fields hfields e (List.mem_cons_of_mem _ he)

end

/-! ### Schemas -/

/-- The elements of a value take the role of elements, unless they are names. -/
lemma elementsOf_rekey {role : Role} (hrole : role.isNamed = false) (raw : Raw) :
    elementsOf (raw.rekey role) = (elementsOf raw).map (List.map (Raw.rekey role.element)) := by
  rw [elementsOf, elementsOf, Raw.isVoid_rekey, Raw.elements?_rekey hrole, Raw.kindPath_rekey]
  split
  · rfl
  · cases raw.elements? <;> rfl

lemma writesNames_of_elementsOf {role : Role} (hrole : role.isNamed = false) {raw : Raw}
    {raws : List Raw} (hnames : raw.writesNames role = true) (h : elementsOf raw = .ok raws) :
    ∀ item ∈ raws, item.writesNames role.element = true := by
  rw [elementsOf] at h
  split at h
  · cases h
    exact nofun
  · split at h
    · next elements helements =>
      cases h
      exact Raw.writesNames_of_elements? hrole hnames helements
    · cases h

/-- All literals of a raw schema, and of the schemas in line below it, find their names. -/
def FindsAllNames (cs : Components) (es : Entries) : Prop :=
  ∀ s ∈ es.inlineSchemas, ∀ l ∈ s.entries.rawLiterals, cs.FindsNames (.dict s.entries) l.2

lemma FindsAllNames.literal {es : Entries} (h : cs.FindsAllNames es) {l : List String × Raw}
    (hl : l ∈ es.rawLiterals) : cs.FindsNames (.dict es) l.2 :=
  h ⟨[], [], es⟩ (Entries.mem_inlineSchemas_iff.mpr (.inl rfl)) l hl

lemma FindsAllNames.child {es below : Entries} (h : cs.FindsAllNames es) {e : Edge × Raw}
    (he : e ∈ es.outline.children) (hbelow : e.2.inline? = some below) :
    cs.FindsAllNames below := by
  rw [← Walk.map_indexedChildren] at he
  obtain ⟨⟨edge, index, raw⟩, hchild, rfl⟩ := List.mem_map.mp he
  obtain ⟨i, hi⟩ := List.getElem?_of_mem hchild
  intro s hs l hl
  have hmem : s.below i (edge, index) ∈ es.inlineSchemas := by
    apply Entries.mem_inlineSchemas_iff.mpr
    exact .inr ⟨edge, index, raw, i, below, s, List.mk_mem_zipIdx_iff_getElem?.mpr hi, hbelow, hs,
      rfl⟩
  exact h _ hmem l hl

lemma FindsAllNames.of_outline {es : Entries}
    (hliteral : ∀ l ∈ es.rawLiterals, cs.FindsNames (.dict es) l.2)
    (hbelow : ∀ e ∈ es.outline.children, ∀ below, e.2.inline? = some below →
      cs.FindsAllNames below) : cs.FindsAllNames es := by
  intro s hs l hl
  rcases Entries.mem_inlineSchemas_iff.mp hs with
    rfl | ⟨edge, index, raw, i, below, t, hchild, hraw, ht, rfl⟩
  · exact hliteral l hl
  · have he := Entries.mem_outline_of_mem_indexedChildren (List.fst_mem_of_mem_zipIdx hchild)
    exact hbelow _ he below hraw t ht l hl

lemma literals_rekey {es : Entries} {raws : List Raw}
    (h : ∀ raw ∈ raws, cs.FindsNames (.dict es) raw ∧ raw.writesNames .literal = true) :
    cs.rekey.literals (Raw.rekeyEntries .schema es) (raws.map (Raw.rekey .literal))
      = cs.literals es raws := by
  induction raws with
  | nil => rfl
  | cons raw raws ih =>
    obtain ⟨hraw, hraws⟩ := List.forall_mem_cons.mp h
    rw [List.map_cons, literals, literals, ih hraws]
    congr 1
    exact literalAt_rekey raw 0 hraw.1 hraw.2

lemma slot_rekey {es : Entries} {name : String} {set : Literal → SchemaNode Schema}
    {kept : SchemaNode Schema} {rest rest' : SchemaNode Schema → Except LoadError (SchemaNode Schema)}
    (hrole : Role.under .schema (.str name) = .literal)
    (hliteral : ∀ raw, es.field? name = some raw → cs.FindsNames (.dict es) raw)
    (hnames : (Raw.dict es).writesNames .schema = true)
    (hnext : ∀ node, rest' node = rest node) :
    (match Entries.field? (Raw.rekeyEntries .schema es) name with
      | some raw => do
        rest' (← pure (set (← cs.rekey.literal (Raw.rekeyEntries .schema es) raw)))
      | none => do rest' (← pure kept))
    = (match es.field? name with
      | some raw => do rest (← pure (set (← cs.literal es raw)))
      | none => do rest (← pure kept)) := by
  rw [Entries.field?_rekeyEntries rfl rfl, hrole]
  cases hfield : es.field? name with
  | none => exact hnext kept
  | some raw =>
    have hraw : cs.rekey.literal (Raw.rekeyEntries .schema es) (raw.rekey .literal)
        = cs.literal es raw :=
      literalAt_rekey raw 0 (hliteral raw hfield)
        (hrole ▸ Entries.writesNames_of_field? hnames hfield)
    rw [Option.map_some]
    dsimp only
    rw [hraw]
    apply bind_congr_except
    exact fun value _ => hnext (set value)

lemma withLiterals_rekey {es : Entries} (h : ∀ l ∈ es.rawLiterals, cs.FindsNames (.dict es) l.2)
    (hnames : (Raw.dict es).writesNames .schema = true) (node : SchemaNode Schema) :
    cs.rekey.withLiterals (Raw.rekeyEntries .schema es) node = cs.withLiterals es node := by
  simp only [Entries.rawLiterals, List.forall_mem_append, List.forall_mem_map,
    Option.mem_toList] at h
  obtain ⟨⟨hdefault, hexample⟩, henum⟩ := h
  rw [withLiterals, withLiterals]
  apply slot_rekey rfl hdefault hnames
  intro first
  apply slot_rekey rfl hexample hnames
  intro second
  rw [Entries.field_rekeyEntries rfl rfl,
    show Role.under .schema (.str "enum") = .literalList from rfl, elementsOf_rekey rfl,
    map_bind_except]
  apply bind_congr_except
  intro raws hraws
  rw [Role.element_literalList, literals_rekey]
  intro raw hraw
  have hlist : (es.field "enum").writesNames .literalList = true :=
    Entries.writesNames_field hnames "enum"
  refine ⟨?_, writesNames_of_elementsOf rfl hlist hraws raw hraw⟩
  obtain ⟨i, hi, heq⟩ := List.getElem_of_mem hraw
  apply henum (["enum", writtenNat i], raw)
  rw [Entries.elementsAt, hraws]
  exact List.mem_mapIdx.mpr ⟨i, hi, by rw [← heq]; rfl⟩

lemma namedSchemasAt_rekey {es : Entries} (h : ∀ e ∈ es, ∀ pointer,
      cs.rekey.schemaAt pointer (e.2.rekey .schema) = cs.schemaAt pointer e.2)
    (hnames : ∀ e ∈ es, e.1.isWritable = true) (pointer : Pointer) :
    cs.rekey.namedSchemasAt pointer (Raw.rekeyEntries .schemaMap es)
      = cs.namedSchemasAt pointer es := by
  induction es with
  | nil => rw [Raw.rekeyEntries, namedSchemasAt, namedSchemasAt]
  | cons e es ih =>
    obtain ⟨key, raw⟩ := e
    obtain ⟨hraw, hes⟩ := List.forall_mem_cons.mp h
    obtain ⟨hkey, hkeys⟩ := List.forall_mem_cons.mp hnames
    simp only [Raw.rekeyEntries, Role.isNamed, if_true, Role.under_schemaMap, namedSchemasAt,
      Raw.text_str]
    rw [requireNames_text hkey, hraw, ih hes hkeys]

lemma schemasAt_rekey {raws : List Raw} (h : ∀ raw ∈ raws, ∀ pointer,
      cs.rekey.schemaAt pointer (raw.rekey .schema) = cs.schemaAt pointer raw) (pointer : Pointer)
    (index : Nat) :
    cs.rekey.schemasAt pointer index (Raw.rekeyAll .schema raws)
      = cs.schemasAt pointer index raws := by
  induction raws generalizing index with
  | nil => rw [Raw.rekeyAll, schemasAt, schemasAt]
  | cons raw raws ih =>
    obtain ⟨hraw, hraws⟩ := List.forall_mem_cons.mp h
    rw [Raw.rekeyAll, schemasAt, schemasAt, hraw, ih hraws]

lemma propertiesAt_rekey {es : Entries} (h : ∀ e ∈ es.mappingAt "properties", ∀ pointer,
      cs.rekey.schemaAt pointer (e.2.rekey .schema) = cs.schemaAt pointer e.2)
    (hnames : (es.field "properties").writesNames .schemaMap = true) (pointer : Pointer) :
    cs.rekey.propertiesAt pointer ((es.field "properties").rekey .schemaMap)
      = cs.propertiesAt pointer (es.field "properties") := by
  unfold Entries.mappingAt at h
  split at h
  · next entries heq =>
    rw [heq] at hnames
    rw [heq, Raw.rekey, propertiesAt, propertiesAt]
    exact namedSchemasAt_rekey h (Raw.isWritable_of_writesNames rfl hnames) pointer
  · next hnot =>
    rw [Raw.rekey_eq_self rfl hnot, propertiesAt_of_not_dict hnot, propertiesAt_of_not_dict hnot]

lemma membersAt_rekey {es : Entries} {name : String} (h : ∀ raw ∈ es.listAt name, ∀ pointer,
      cs.rekey.schemaAt pointer (raw.rekey .schema) = cs.schemaAt pointer raw) (pointer : Pointer) :
    cs.rekey.membersAt pointer ((es.field name).rekey .schemaList)
      = cs.membersAt pointer (es.field name) := by
  unfold Entries.listAt at h
  split at h
  · next raws heq =>
    rw [heq, Raw.rekey, membersAt, membersAt]
    exact schemasAt_rekey h pointer 0
  · next hnot =>
    have hnot' : ∀ raws, (es.field name).rekey .schemaList = .list raws → False := by
      intro raws heq
      generalize es.field name = raw at hnot heq
      cases raw with
      | list raws => exact hnot raws rfl
      | _ => cases heq
    rw [membersAt_of_not_list hnot, membersAt_of_not_list hnot', elementsOf_rekey rfl,
      map_bind_except]
    apply bind_congr_except
    intro raws _
    cases raws with
    | nil => rfl
    | cons first raws =>
      rw [List.map_cons, List.head?_cons, List.head?_cons, Option.elim_some, Option.elim_some,
        notMapping, notMapping, Raw.kindName_rekey]

/-- A schema and the rekeyed schema are read alike, if so are the schemas below. -/
lemma fill_rekey {es : Entries} (h : ∀ l ∈ es.rawLiterals, cs.FindsNames (.dict es) l.2)
    (hnames : (Raw.dict es).writesNames .schema = true)
    (hbelow : ∀ e ∈ es.outline.children, ∀ pointer,
      cs.rekey.schemaAt pointer (e.2.rekey .schema) = cs.schemaAt pointer e.2)
    (pointer : Pointer) (node : SchemaNode Schema) :
    cs.rekey.fill pointer node (Raw.rekeyEntries .schema es)
        (cs.rekey.partsAt pointer (Raw.rekeyEntries .schema es))
      = cs.fill pointer node es (cs.partsAt pointer es) := by
  obtain ⟨hproperties, hitems, hadditional, honeOf, hanyOf, hallOf⟩ :=
    (SchemaNode.forall_mem_children_iff (P := fun raw => ∀ pointer,
      cs.rekey.schemaAt pointer (raw.rekey .schema) = cs.schemaAt pointer raw)).mp hbelow
  have hrequired : requiredNames (Raw.rekeyEntries .schema es) = requiredNames es := by
    rw [requiredNames, requiredNames, Entries.field_rekeyEntries_plain rfl rfl rfl]
  have hhead : withHead (Raw.rekeyEntries .schema es) node = withHead es node := by
    simp only [withHead]
    rw [Entries.field_rekeyEntries_plain rfl rfl rfl, Entries.field_rekeyEntries_plain rfl rfl rfl,
      Entries.field_rekeyEntries_plain rfl rfl rfl, Entries.field_rekeyEntries_plain rfl rfl rfl]
  have hfield : ∀ name, Entries.field (Raw.rekeyEntries .schema es) name
      = (es.field name).rekey (Role.under .schema (.str name)) :=
    fun name => Entries.field_rekeyEntries rfl rfl
  have hparts : cs.rekey.partsAt pointer (Raw.rekeyEntries .schema es) = cs.partsAt pointer es := by
    rw [partsAt_eq, partsAt_eq]
    simp only [hfield]
    congr 1
    · have hmap : (es.field "properties").writesNames .schemaMap = true :=
        Entries.writesNames_field hnames "properties"
      refine propertiesAt_rekey ?_ hmap _
      exact fun e he => hproperties _ (List.mem_map_of_mem he)
    · rw [Raw.isNull_rekey]
      split
      · rfl
      · next hnull =>
        congr 1
        exact hitems _ (by simp [Entries.outline, hnull]) _
    · rw [Raw.isMapping_rekey]
      split
      · next hmapping =>
        congr 1
        exact hadditional _ (by simp [Entries.outline, hmapping]) _
      · rfl
    · exact membersAt_rekey honeOf _
    · exact membersAt_rekey hanyOf _
    · exact membersAt_rekey hallOf _
  rw [fill, fill, hparts, hrequired, hhead, Entries.field_rekeyEntries_plain rfl rfl rfl]
  simp only [withLiterals_rekey h hnames]

/-- The raw schemas below one write the names that they have. -/
lemma writesNames_of_mem_outline {es : Entries}
    (hnames : (Raw.dict es).writesNames .schema = true) :
    ∀ e ∈ es.outline.children, e.2.writesNames .schema = true := by
  have hfield : ∀ name, (es.field name).writesNames (Role.under .schema (.str name)) = true :=
    Entries.writesNames_field hnames
  have hmembers : ∀ name, Role.under .schema (.str name) = .schemaList →
      ∀ raw ∈ es.listAt name, raw.writesNames .schema = true := by
    intro name hrole raw hraw
    have hlist := hfield name
    rw [hrole] at hlist
    unfold Entries.listAt at hraw
    split at hraw
    · next raws heq =>
      rw [heq] at hlist
      exact Raw.writesAllNames_iff.mp hlist raw hraw
    · cases hraw
  refine (SchemaNode.forall_mem_children_iff
    (P := fun raw : Raw => raw.writesNames .schema = true)).mpr
    ⟨?_, ?_, ?_, hmembers _ rfl, hmembers _ rfl, hmembers _ rfl⟩
  · have hmap : (es.field "properties").writesNames .schemaMap = true := hfield "properties"
    simp only [Entries.outline, List.forall_mem_map]
    unfold Entries.mappingAt
    split
    · next entries heq =>
      rw [heq] at hmap
      exact fun e he => Role.under_schemaMap e.1 ▸ Raw.writesNames_under hmap e he
    · intro e he
      cases he
  · intro raw hraw
    rw [Entries.outline, Option.mem_def, Option.ite_none_left_eq_some] at hraw
    exact Option.some.inj hraw.2 ▸ hfield "items"
  · intro raw hraw
    rw [Entries.outline, Option.mem_def, Option.ite_none_right_eq_some] at hraw
    exact Option.some.inj hraw.2 ▸ hfield "additionalProperties"

/-- A schema and the rekeyed schema are read alike. -/
lemma schemaAt_rekey {raw : Raw} (h : ∀ es, raw.inline? = some es → cs.FindsAllNames es)
    (hnames : raw.writesNames .schema = true) (pointer : Pointer) :
    cs.rekey.schemaAt pointer (raw.rekey .schema) = cs.schemaAt pointer raw := by
  induction hsize : sizeOf raw using Nat.strongRecOn generalizing raw pointer with
  | _ size ih =>
    cases raw with
    | dict es =>
      simp only [Raw.dict.sizeOf_spec] at hsize
      rw [Raw.rekey, schemaAt, schemaAt, Entries.field?_rekeyEntries_plain rfl rfl rfl]
      cases hreference : Entries.field? es "$ref" with
      | some reference =>
        dsimp only
        rw [resolve_rekey]
      | none =>
        dsimp only
        have hes := h es (Raw.inline?_eq_some_iff.mpr ⟨rfl, hreference⟩)
        rw [fill_rekey (fun l hl => hes.literal hl) hnames]
        intro e he pointer
        have hlt := Entries.sizeOf_lt_of_mem_outline he
        exact ih _ (by omega) (fun below hbelow => hes.child he hbelow)
          (writesNames_of_mem_outline hnames e he) pointer rfl
    | _ =>
      rw [schemaAt_of_not_dict (by simp [Raw.rekey]), schemaAt_of_not_dict (by simp), notMapping,
        notMapping, Raw.kindName_rekey]

/-! ### Components -/

/-- Components in which each name that is looked up, for the end of an alias or for a literal, is
a key or not the text of any. -/
structure FindNames (cs : Components) : Prop where
  target : ∀ e ∈ cs.entries, ∀ name, cs.referredName? e.2 = some name →
    Entries.IsOwnKey cs.entries name
  literal : ∀ e ∈ cs.entries, ∀ es, e.2.inline? = some es → cs.FindsAllNames es

lemma follow_rekey (h : cs.FindNames) {pointer : Pointer} {steps : Nat} {chain : List String}
    {body : Raw} (hbody : ∃ e ∈ cs.entries, e.2 = body) :
    cs.rekey.follow pointer steps chain (body.rekey .schema)
      = (cs.follow pointer steps chain body).map fun found => (found.1, found.2.rekey .schema) := by
  induction steps generalizing chain body with
  | zero => rfl
  | succ steps ih =>
    rw [follow, follow, reference?_rekey]
    cases hreference : reference? body with
    | none => rfl
    | some reference =>
      dsimp only
      rw [resolve_rekey]
      cases htarget : cs.resolve pointer reference with
      | error e => rfl
      | ok target =>
        obtain ⟨text, rfl, hname, _⟩ := resolve_eq_ok htarget
        obtain ⟨e, he, rfl⟩ := hbody
        have hreferred : cs.referredName? e.2 = some target := by
          simp only [referredName?, hreference, hname]
        simp only [bind, Except.bind]
        -- The chain is of names, which rekeying leaves alone; only what is found under them is
        -- rekeyed.
        by_cases hchain : target ∈ chain
        · simp only [hchain, if_true]
          rfl
        · simp only [hchain, if_false]
          rw [field?_rekey (h.target e he target hreferred)]
          cases hnext : Entries.field? cs.entries target with
          | none => rfl
          | some next => exact ih ⟨_, Entries.mem_of_field? hnext, rfl⟩

lemma addComponent_rekey (h : cs.FindNames)
    (hnames : (Raw.dict cs.entries).writesNames .schemaMap = true) {e : Raw × Raw}
    (he : e ∈ cs.entries) (loaded : LoadedDocument) :
    cs.rekey.addComponent loaded (.str e.1.text) (e.2.rekey .schema)
      = cs.addComponent loaded e.1 e.2 := by
  rw [addComponent, addComponent, aliasTarget, aliasTarget, length_rekey,
    follow_rekey h ⟨e, he, rfl⟩]
  simp only [map_bind_except, Raw.text_str, pointerTo_rekey]
  apply bind_congr_except
  rintro ⟨target, shape⟩ hfound
  obtain ⟨hplain, other, hother, heq⟩ := exists_entry_of_follow ⟨e, he, rfl⟩ hfound
  dsimp only at hplain heq
  cases shape with
  | dict es =>
    have hes := h.literal other hother es (heq ▸ Raw.inline?_eq_some_iff.mpr ⟨rfl, hplain⟩)
    have hshape : (Raw.dict es).writesNames .schema = true := by
      rw [← heq, ← Role.under_schemaMap other.1]
      exact Raw.writesNames_under hnames other hother
    have hbelow : ∀ child ∈ (Entries.outline es).children, ∀ pointer,
        cs.rekey.schemaAt pointer (child.2.rekey .schema) = cs.schemaAt pointer child.2 := by
      intro child hchild pointer
      exact schemaAt_rekey (fun below hbelow => hes.child hchild hbelow)
        (writesNames_of_mem_outline hshape child hchild) pointer
    simp only [Raw.rekey, fill_rekey (fun l hl => hes.literal hl) hshape hbelow]
    rfl
  | _ => rfl

/-- Rekeyed components are loaded alike. -/
lemma load_rekey (h : cs.FindNames) (hnames : (Raw.dict cs.entries).writesNames .schemaMap = true)
    {es : List (Raw × Raw)} (hes : ∀ e ∈ es, e ∈ cs.entries) (loaded : LoadedDocument) :
    cs.rekey.load (Raw.rekeyEntries .schemaMap es) loaded = cs.load es loaded := by
  induction es generalizing loaded with
  | nil => rfl
  | cons e es ih =>
    obtain ⟨key, body⟩ := e
    obtain ⟨he, hes⟩ := List.forall_mem_cons.mp hes
    simp only [Raw.rekeyEntries, Role.isNamed, if_true, Role.under_schemaMap, load]
    rw [addComponent_rekey h hnames he]
    apply bind_congr_except
    exact fun next _ => ih hes next

/-! ### Documents -/

lemma entriesAt_nil_rekey (path : List String) (role : Role) (raw : Raw) :
    entriesAt path [] (raw.rekey role) = (entriesAt path [] raw).map (Raw.rekeyEntries role) := by
  cases raw <;> rfl

lemma entriesAt_cons_rekey {path keys : List String} {key : String} {role : Role}
    (hnamed : role.isNamed = false) (helement : role.element = .plain)
    (h : ∀ raw, entriesAt path keys (raw.rekey (role.under (.str key)))
      = (entriesAt path keys raw).map (Raw.rekeyEntries .schemaMap)) (raw : Raw) :
    entriesAt path (key :: keys) (raw.rekey role)
      = (entriesAt path (key :: keys) raw).map (Raw.rekeyEntries .schemaMap) := by
  cases raw with
  | dict es =>
    rw [Raw.rekey, entriesAt, entriesAt, Entries.field_rekeyEntries hnamed helement, ← h]
    rw [Raw.isVoid_rekey]
    split <;> rfl
  | _ => rfl

lemma entriesAt_rekey (path : List String) (family : Family) (document : Raw) :
    entriesAt path family.schemasPath (document.rekey .document)
      = (entriesAt path family.schemasPath document).map (Raw.rekeyEntries .schemaMap) := by
  cases family with
  | openapi =>
    apply entriesAt_cons_rekey rfl rfl
    apply entriesAt_cons_rekey rfl rfl
    exact entriesAt_nil_rekey path .schemaMap
  | swagger =>
    apply entriesAt_cons_rekey rfl rfl
    exact entriesAt_nil_rekey path .schemaMap

lemma writesNames_entriesAt_nil {path : List String} {raw : Raw} {es : Entries} {role : Role}
    (hnames : raw.writesNames role = true) (h : entriesAt path [] raw = .ok es) :
    (Raw.dict es).writesNames role = true := by
  cases raw with
  | dict entries =>
    cases h
    exact hnames
  | _ => cases h

lemma writesNames_entriesAt_cons {path keys : List String} {key : String} {raw : Raw}
    {es : Entries} {role : Role} (hnames : raw.writesNames role = true)
    (h : entriesAt path (key :: keys) raw = .ok es)
    (hkeys : ∀ raw, raw.writesNames (role.under (.str key)) = true →
      entriesAt path keys raw = .ok es → (Raw.dict es).writesNames .schemaMap = true) :
    (Raw.dict es).writesNames .schemaMap = true := by
  cases raw with
  | dict entries =>
    rw [entriesAt] at h
    refine hkeys _ ?_ h
    split
    · rfl
    · exact Entries.writesNames_field hnames key
  | _ =>
    cases h
    rfl

/-- The components of a document write their names if the document does. -/
lemma writesNames_of_ofDocument {document : Raw} (hnames : document.writesNames .document = true)
    (h : ofDocument document = .ok cs) : (Raw.dict cs.entries).writesNames .schemaMap = true := by
  obtain ⟨version, -, h⟩ := bind_eq_ok_iff.mp h
  obtain ⟨es, hes, h⟩ := bind_eq_ok_iff.mp h
  cases h
  cases hfamily : version.family with
  | openapi =>
    rw [Version.schemasPath, hfamily] at hes
    refine writesNames_entriesAt_cons hnames hes fun _ hcomponents hes => ?_
    refine writesNames_entriesAt_cons hcomponents hes fun _ hschemas hes => ?_
    exact writesNames_entriesAt_nil hschemas hes
  | swagger =>
    rw [Version.schemasPath, hfamily] at hes
    refine writesNames_entriesAt_cons hnames hes fun _ hschemas hes => ?_
    exact writesNames_entriesAt_nil hschemas hes

end Components

/-- The version of a document is not under a name. -/
lemma Version.ofDocument_rekey (document : Raw) :
    Version.ofDocument (document.rekey .document) = Version.ofDocument document := by
  cases document with
  | dict es =>
    have hfield : ∀ family : Family,
        Entries.field? (Raw.rekeyEntries .document es) family.name
          = Entries.field? es family.name := by
      intro family
      apply Entries.field?_rekeyEntries_plain rfl rfl
      cases family <;> rfl
    simp only [Raw.rekey, Version.ofDocument, hfield]
  | _ => rfl

lemma Components.ofDocument_rekey (document : Raw) :
    ofDocument (document.rekey .document) = (ofDocument document).map rekey :=
  ofDocument_map (Version.ofDocument_rekey document) fun whole family =>
    entriesAt_rekey whole family document

/-- If a document finds its names, then the schemas of the rekeyed document are the same, or there
are none because of the same error. -/
theorem LoadedDocument.ofRaw_rekey {document : Raw}
    (hnames : document.writesNames .document = true)
    (h : ∀ cs, Components.ofDocument document = .ok cs → cs.FindNames) :
    LoadedDocument.ofRaw (document.rekey .document) = LoadedDocument.ofRaw document := by
  rw [ofRaw, ofRaw, Components.ofDocument_rekey, map_bind_except]
  apply bind_congr_except
  intro cs hcs
  have hentries := Components.writesNames_of_ofDocument hnames hcs
  rw [Components.requireNames_rekey (Raw.isWritable_of_writesNames rfl hentries)]
  apply bind_congr_except
  intro _ _
  exact Components.load_rekey (h cs hcs) hentries (fun _ he => he) { version := cs.version }

end ApiLint
