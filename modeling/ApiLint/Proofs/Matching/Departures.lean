import ApiLint.Proofs.Document.Rendering
import ApiLint.Proofs.Graph.Trail
import ApiLint.Proofs.Matching.Fits
import ApiLint.Proofs.Pointer

/-!
# Departures of literals in a document

Where a literal departs from the raw schemas that govern it can be said on the document alone: the
raw literal and the raw schemas are gone through together, and nothing is converted. On a graph that
renders the document, the matcher finds a mismatch at each departure, in the same order.
-/

namespace ApiLint

/-- The raw schema of a member of a mapping: of the property of its name, or of the additional
properties. -/
def Entries.memberSchema (es : Entries) (name : String) : Raw :=
  ((es.mappingAt "properties").field? name).getD (es.field "additionalProperties")

namespace Components

mutual

/-- The parts of a raw literal that depart from the raw schemas that govern them, each given by the
keys and indices that lead to it. Nothing below a departing part is looked at, and no schema or no
type lets everything pass. -/
def departures (cs : Components) (schema raw : Raw) : List (List String) :=
  match cs.governing? schema with
  | none => []
  | some es =>
    if (es.field "type").isNull then []
    else
      match raw with
      | .list items =>
        if (es.field "type").isText "array" then itemDepartures cs (es.field "items") 0 items
        else [[]]
      | .dict members =>
        if (es.field "type").isText "object" then memberDepartures cs es members else [[]]
      | raw =>
        if raw.fits es.outline.nullable (es.field "type") (es.field "format") then [] else [[]]

/-- The departures in the elements of a list, the first of which has the given index. -/
def itemDepartures (cs : Components) (schema : Raw) (index : Nat) : List Raw → List (List String)
  | [] => []
  | x :: xs =>
    (departures cs schema x).map (writtenNat index :: ·) ++ itemDepartures cs schema (index + 1) xs

/-- The departures in the members of a mapping. -/
def memberDepartures (cs : Components) (es : Entries) : List (Raw × Raw) → List (List String)
  | [] => []
  | (key, value) :: rest =>
    (departures cs (es.memberSchema key.text) value).map (key.text :: ·)
      ++ memberDepartures cs es rest

end

variable {cs : Components} {g : Graph}

/-! ### Schemas of elements and members -/

variable (cs g) in
/-- A child that renders the raw schema that governs the literals of another one. -/
def Governs (schema : Raw) (child : Child) (es : Entries) : Prop :=
  ∃ place node lo hi, child = .node place ∧ g.nodes[place]? = some node
    ∧ cs.governing? schema = some es ∧ cs.Renders g lo hi es node

lemma RenderedBy.governs (h : cs.RenderedBy g) {lo hi : Nat} {raw : Raw} {child : Child}
    (hraw : raw.isTextKeyed = true) (hstands : cs.Stands g lo hi raw child) :
    ∃ es, cs.Governs g raw child es := by
  obtain ⟨place, node, es, lo', hi', hchild, hnode, _, hes, hrenders⟩ := h.governing hraw hstands
  exact ⟨es, place, node, lo', hi', hchild, hnode, hes, hrenders⟩

lemma departures_eq_nil {schema : Raw} (h : cs.governing? schema = none) (raw : Raw) :
    cs.departures schema raw = [] := by
  rw [departures, h]

lemma itemDepartures_eq_nil {schema : Raw} (h : cs.governing? schema = none) (index : Nat)
    (items : List Raw) : cs.itemDepartures schema index items = [] := by
  induction items generalizing index with
  | nil => rfl
  | cons x xs ih => rw [itemDepartures, departures_eq_nil h, ih, List.map_nil, List.nil_append]

lemma find?_map_text {es : Entries} (h : (Raw.dict es).isTextKeyed = true) (name : String) :
    Fields.find? (es.map fun e => (e.1.text, e.2)) name = es.field? name := by
  induction es with
  | nil => rfl
  | cons e es ih =>
    obtain ⟨⟨first, hfirst, _⟩, _, hrest⟩ := Raw.isTextKeyed_dict_cons h
    obtain ⟨key, value⟩ := e
    cases hfirst
    by_cases hname : first = name
    · subst hname
      simp [Fields.find?]
    · rw [Entries.field?_cons_of_ne (by simpa using hname), List.map_cons, Fields.find?,
        if_neg (by simpa using hname), ih hrest]

/-- The properties of an outline are found as they are written. -/
lemma find?_properties_outline {es : Entries} (h : (Raw.dict es).isTextKeyed = true)
    (name : String) :
    Fields.find? es.outline.properties name = (es.mappingAt "properties").field? name :=
  find?_map_text (Entries.isTextKeyed_mappingAt h "properties") name

/-- The child for the elements of a list renders what governs them, or nothing does. -/
lemma items_of_renders (h : cs.RenderedBy g) {lo hi : Nat} {es : Entries} {node : Node}
    (hrenders : cs.Renders g lo hi es node) :
    (node.items = none ∧ cs.governing? (es.field "items") = none)
      ∨ ∃ child below, node.items = some child ∧ cs.Governs g (es.field "items") child below := by
  have hitems := (SchemaNode.similar_iff.mp hrenders.similar).2.1
  rcases SchemaNode.exists_of_forall₂_toList hitems with
    ⟨hnone, hnode⟩ | ⟨raw, child, hraw, hchild, lo', hi', hstands⟩
  · refine .inl ⟨hnode, governing?_eq_none ?_⟩
    by_cases hnull : (es.field "items").isNull
    · rw [Raw.isNull_iff.mp hnull]
      rfl
    · simp [Entries.outline, hnull] at hnone
  · have heq : raw = es.field "items" := by
      by_cases hnull : (es.field "items").isNull
      · simp [Entries.outline, hnull] at hraw
      · simpa [Entries.outline, hnull] using hraw.symm
    subst heq
    obtain ⟨below, hgoverns⟩ :=
      h.governs (Raw.isTextKeyed_field hrenders.keyed "items") hstands
    exact .inr ⟨child, below, hchild, hgoverns⟩

/-- The child for a member of a mapping renders what governs it, or nothing does. -/
lemma memberSchema?_of_renders (h : cs.RenderedBy g) {lo hi : Nat} {es : Entries} {node : Node}
    (hrenders : cs.Renders g lo hi es node) (name : String) :
    (Matching.memberSchema? node name = none ∧ cs.governing? (es.memberSchema name) = none)
      ∨ ∃ child below, Matching.memberSchema? node name = some child
        ∧ cs.Governs g (es.memberSchema name) child below := by
  have hsimilar := SchemaNode.similar_iff.mp hrenders.similar
  have hmapping := Entries.isTextKeyed_mappingAt hrenders.keyed "properties"
  have hproperty := SchemaNode.find?_of_forall₂
    (R := fun raw child => ∃ lo hi, cs.Stands g lo hi raw child) hsimilar.1 name
  rw [find?_properties_outline hrenders.keyed] at hproperty
  -- A property governs the member of its name; any other member is left to the additional ones.
  rcases hproperty with ⟨hnone, hnode⟩ | ⟨raw, child, hraw, hchild, lo', hi', hstands⟩
  · have hschema : es.memberSchema name = es.field "additionalProperties" := by
      rw [Entries.memberSchema, hnone, Option.getD_none]
    have hmember : Matching.memberSchema? node name = node.additional := by
      rw [Matching.memberSchema?, SchemaNode.property?, hnode]
    rw [hschema, hmember]
    rcases SchemaNode.exists_of_forall₂_toList hsimilar.2.2.1 with
      ⟨hnone', hnode'⟩ | ⟨raw, child, hraw, hchild, lo', hi', hstands⟩
    · refine .inl ⟨hnode', governing?_eq_none ?_⟩
      by_cases hmap : (es.field "additionalProperties").isMapping
      · simp [Entries.outline, hmap] at hnone'
      · simpa using hmap
    · have heq : raw = es.field "additionalProperties" := by
        by_cases hmap : (es.field "additionalProperties").isMapping
        · simpa [Entries.outline, hmap] using hraw.symm
        · simp [Entries.outline, hmap] at hraw
      subst heq
      obtain ⟨below, hgoverns⟩ :=
        h.governs (Raw.isTextKeyed_field hrenders.keyed "additionalProperties") hstands
      exact .inr ⟨child, below, hchild, hgoverns⟩
  · have hschema : es.memberSchema name = raw := by
      rw [Entries.memberSchema, hraw, Option.getD_some]
    have hmember : Matching.memberSchema? node name = some child := by
      rw [Matching.memberSchema?, SchemaNode.property?, hchild]
    obtain ⟨below, hgoverns⟩ := h.governs (Raw.isTextKeyed_field? hmapping hraw) hstands
    rw [hschema, hmember]
    exact .inr ⟨child, below, rfl, hgoverns⟩

/-! ### Departures by the kind of the literal -/

lemma departures_list {schema : Raw} {es : Entries} (hes : cs.governing? schema = some es)
    (items : List Raw) :
    cs.departures schema (.list items)
      = if (es.field "type").isNull then []
        else if (es.field "type").isText "array" then cs.itemDepartures (es.field "items") 0 items
        else [[]] := by
  rw [departures, hes]

lemma departures_dict {schema : Raw} {es : Entries} (hes : cs.governing? schema = some es)
    (members : Entries) :
    cs.departures schema (.dict members)
      = if (es.field "type").isNull then []
        else if (es.field "type").isText "object" then cs.memberDepartures es members
        else [[]] := by
  rw [departures, hes]

lemma departures_plain {schema raw : Raw} {es : Entries} (hlist : ∀ items, raw ≠ .list items)
    (hdict : ∀ es, raw ≠ .dict es) (hes : cs.governing? schema = some es) :
    cs.departures schema raw
      = if (es.field "type").isNull then []
        else if raw.fits es.outline.nullable (es.field "type") (es.field "format") then []
        else [[]] := by
  rw [departures.eq_def, hes]
  cases raw with
  | list items => exact absurd rfl (hlist items)
  | dict members => exact absurd rfl (hdict members)
  | _ => rfl

/-! ### Converted literals -/

lemma propertySchema?_eq_ok {name : String} {properties : Raw} {found : Option Raw}
    (h : propertySchema? name properties = .ok found) :
    (∃ entries, properties = .dict entries ∧ found = Entries.field? entries name)
      ∨ ((∀ entries, properties ≠ .dict entries) ∧ found = none) := by
  rw [propertySchema?.eq_def] at h
  cases properties with
  | dict entries =>
    cases h
    exact .inl ⟨entries, rfl, rfl⟩
  | _ =>
    refine .inr ⟨fun _ => nofun, ?_⟩
    dsimp only at h
    split at h
    · cases h
      rfl
    · obtain ⟨isThere, _, h⟩ := bind_eq_ok_iff.mp h
      cases isThere
      · cases h
        rfl
      · cases h

lemma memberSchema_eq_ok {es : Entries} {name : String} {schema : Raw}
    (h : memberSchema (some es) name = .ok schema) : schema = es.memberSchema name := by
  obtain ⟨found, hfound, h⟩ := bind_eq_ok_iff.mp h
  have hlookup : found = (es.mappingAt "properties").field? name := by
    rcases propertySchema?_eq_ok hfound with ⟨entries, heq, rfl⟩ | ⟨hnot, rfl⟩
    · simp only [Entries.mappingAt, heq]
    · unfold Entries.mappingAt
      split
      · next entries heq => exact absurd heq (hnot entries)
      · rfl
  subst hlookup
  rw [Entries.memberSchema]
  cases heq : (es.mappingAt "properties").field? name <;> rw [heq] at h <;> cases h
  · rw [Option.getD_none]
  · rw [Option.getD_some]

/-- A value that holds no others becomes a scalar under the type and the format of what governs
it. -/
lemma literalAt_plain_eq_ok {schema raw : Raw} {es : Entries} {depth : Nat} {value : Literal}
    (hlist : ∀ items, raw ≠ .list items) (hdict : ∀ es, raw ≠ .dict es)
    (hpair : ∀ k v, raw ≠ .pair k v) (hes : cs.governing? schema = some es)
    (h : cs.literalAt schema depth raw = .ok value) :
    Literal.ofScalar raw (es.field "type") (es.field "format") = .ok value := by
  rw [literalAt_plain hlist hdict, hes] at h
  split at h
  · cases h
  · have hraw := mapError_eq_ok_iff.mp h
    rwa [Literal.ofRaw_plain hlist hpair hdict] at hraw

/-- The elements of a list become the elements of an array. -/
lemma literalItems_eq_ok {schema : Raw} {depth : Nat} {items : List Raw} {values : List Literal}
    (h : cs.literalItems schema depth items = .ok values) :
    List.Forall₂ (fun raw value => cs.literalAt schema depth raw = .ok value) items values := by
  induction items generalizing values with
  | nil =>
    rw [literalItems] at h
    cases h
    exact .nil
  | cons x xs ih =>
    rw [literalItems] at h
    obtain ⟨value, hvalue, h⟩ := bind_eq_ok_iff.mp h
    obtain ⟨rest, hrest, h⟩ := bind_eq_ok_iff.mp h
    cases h
    exact .cons hvalue (ih hrest)

/-- The entries of a mapping with distinct keys become the members of an object, behind those that
are there. -/
lemma literalMembers_eq_ok {governing : Option Entries} {depth : Nat}
    {before members : Fields Literal} {es : Entries}
    (hnames : (before.names ++ es.map fun e => e.1.text).Nodup)
    (h : cs.literalMembers governing depth before es = .ok members) :
    ∃ more, members = before ++ more ∧ List.Forall₂ (fun e m => e.1.text = m.1
      ∧ ∃ schema, memberSchema governing e.1.text = .ok schema
        ∧ cs.literalAt schema depth e.2 = .ok m.2) es more := by
  induction es generalizing before with
  | nil =>
    rw [literalMembers] at h
    cases h
    exact ⟨[], by simp, .nil⟩
  | cons e es ih =>
    obtain ⟨key, raw⟩ := e
    rw [literalMembers] at h
    obtain ⟨_, -, h⟩ := bind_eq_ok_iff.mp h
    obtain ⟨schema, hschema, h⟩ := bind_eq_ok_iff.mp h
    obtain ⟨value, hvalue, h⟩ := bind_eq_ok_iff.mp h
    rw [List.map_cons, List.nodup_append] at hnames
    have hnew : key.text ∉ before.names := fun hmem =>
      hnames.2.2 _ hmem _ (List.mem_cons_self ..) rfl
    rw [Fields.insert_of_notMem hnew] at h
    obtain ⟨more, rfl, hmore⟩ := ih (by
      rw [Fields.names, List.map_append, List.append_assoc, List.nodup_append]
      exact ⟨hnames.1, by simpa using hnames.2.1, by simpa [Fields.names] using hnames.2.2⟩) h
    exact ⟨(key.text, value) :: more, by simp, .cons ⟨rfl, schema, hschema, hvalue⟩ hmore⟩

lemma literalAt_list_eq_ok {schema : Raw} {es : Entries} {depth : Nat} {items : List Raw}
    {value : Literal} (hes : cs.governing? schema = some es)
    (h : cs.literalAt schema depth (.list items) = .ok value) :
    ∃ values, value = .array values ∧ List.Forall₂
      (fun raw value => cs.literalAt (es.field "items") (depth + 1) raw = .ok value) items
        values := by
  rw [literalAt, hes] at h
  split at h
  · cases h
  · obtain ⟨values, hvalues, h⟩ := bind_eq_ok_iff.mp h
    cases h
    exact ⟨values, rfl, literalItems_eq_ok hvalues⟩

lemma literalAt_dict_eq_ok {schema : Raw} {es members : Entries} {depth : Nat} {value : Literal}
    (hmembers : (Raw.dict members).isTextKeyed = true) (hes : cs.governing? schema = some es)
    (h : cs.literalAt schema depth (.dict members) = .ok value) :
    ∃ fields, value = .object fields ∧ List.Forall₂ (fun e m => e.1.text = m.1
      ∧ cs.literalAt (es.memberSchema e.1.text) (depth + 1) e.2 = .ok m.2) members fields := by
  rw [literalAt, hes] at h
  split at h
  · cases h
  · obtain ⟨fields, hfields, h⟩ := bind_eq_ok_iff.mp h
    cases h
    have hnames : (Fields.names ([] : Fields Literal) ++ members.map fun e => e.1.text).Nodup :=
      Raw.nodup_names hmembers
    obtain ⟨more, rfl, hmore⟩ := literalMembers_eq_ok hnames hfields
    refine ⟨_, rfl, hmore.imp ?_⟩
    rintro e m ⟨hname, schema, hschema, hvalue⟩
    exact ⟨hname, memberSchema_eq_ok hschema ▸ hvalue⟩

/-! ### Mismatches -/

/-- The mismatches at departures, given the pointer to the whole literal. -/
def mismatchesAt (pointer : Pointer) (paths : List (List String)) : List Finding :=
  paths.map fun path => Matching.mismatch (pointer.through path)

lemma mismatchesAt_append (pointer : Pointer) (paths paths' : List (List String)) :
    mismatchesAt pointer (paths ++ paths')
      = mismatchesAt pointer paths ++ mismatchesAt pointer paths' := by
  simp [mismatchesAt]

lemma mismatchesAt_map_cons (pointer : Pointer) (segment : String) (paths : List (List String)) :
    mismatchesAt pointer (paths.map (segment :: ·))
      = mismatchesAt (pointer.join [segment]) paths := by
  rw [mismatchesAt, List.map_map]
  rfl

/-- A raw literal whose conversions match with mismatches at its departures, whatever governs it. -/
def MatchesAtDepartures (cs : Components) (g : Graph) (raw : Raw) : Prop :=
  ∀ {schema child es depth value} (pointer : Pointer), cs.Governs g schema child es →
    cs.literalAt schema depth raw = .ok value →
    Matching.mismatches g child pointer value
      = .ok (mismatchesAt pointer (cs.departures schema raw))

lemma itemMismatches_eq {schema : Raw} {child : Child} {es : Entries}
    (hgoverns : cs.Governs g schema child es) {depth : Nat} {pointer : Pointer} {items : List Raw}
    (ih : ∀ x ∈ items, cs.MatchesAtDepartures g x) {values : List Literal}
    (h : List.Forall₂ (fun raw value => cs.literalAt schema depth raw = .ok value) items values)
    (index : Nat) :
    Matching.itemMismatches g child pointer index values
      = .ok (mismatchesAt pointer (cs.itemDepartures schema index items)) := by
  induction h generalizing index with
  | nil => rfl
  | @cons x value xs values head _ ih' =>
    rw [Matching.itemMismatches, ih x (List.mem_cons_self ..) _ hgoverns head,
      ih' (fun y hy => ih y (List.mem_cons_of_mem _ hy)), itemDepartures, mismatchesAt_append,
      mismatchesAt_map_cons]
    rfl

lemma memberMismatches_eq (hcs : cs.RenderedBy g) {lo hi : Nat} {es : Entries} {node : Node}
    (hrenders : cs.Renders g lo hi es node) {depth : Nat} {pointer : Pointer} {members : Entries}
    (ih : ∀ e ∈ members, cs.MatchesAtDepartures g e.2) {values : Fields Literal}
    (h : List.Forall₂ (fun e m => e.1.text = m.1
      ∧ cs.literalAt (es.memberSchema e.1.text) depth e.2 = .ok m.2) members values) :
    Matching.memberMismatches g node pointer values
      = .ok (mismatchesAt pointer (cs.memberDepartures es members)) := by
  induction h with
  | nil => rfl
  | @cons e m members values head _ ih' =>
    obtain ⟨key, raw⟩ := e
    obtain ⟨name, value⟩ := m
    obtain ⟨hname, hvalue⟩ := head
    dsimp only at hname hvalue
    subst hname
    rw [Matching.memberMismatches, ih' (fun f hf => ih f (List.mem_cons_of_mem _ hf)),
      memberDepartures, mismatchesAt_append, mismatchesAt_map_cons]
    rcases memberSchema?_of_renders hcs hrenders key.text with
      ⟨hnone, hungoverned⟩ | ⟨child, below, hchild, hgoverns⟩
    · rw [hnone, departures_eq_nil hungoverned]
      rfl
    · have hhere := ih _ (List.mem_cons_self ..) (pointer.join [key.text]) hgoverns hvalue
      rw [hchild]
      dsimp only at hhere ⊢
      rw [hhere]
      rfl

/-! ### The matcher -/

lemma matchesAtDepartures_plain {raw : Raw} (hlist : ∀ items, raw ≠ .list items)
    (hdict : ∀ es, raw ≠ .dict es) (hpair : ∀ k v, raw ≠ .pair k v) :
    cs.MatchesAtDepartures g raw := by
  intro schema child es depth value pointer hgoverns hvalue
  obtain ⟨place, node, lo, hi, rfl, hnode, hes, hrenders⟩ := hgoverns
  have htype := hrenders.declares.type
  have hscalar := literalAt_plain_eq_ok hlist hdict hpair hes hvalue
  obtain ⟨kind, payload, rfl, hbecomes⟩ := Literal.becomes_of_ofScalar hscalar
  rw [Matching.mismatches, Graph.resolve_node hnode, departures_plain hlist hdict hes]
  dsimp only
  rw [htype]
  cases hnull : (es.field "type").isNull with
  | true => rfl
  | false =>
    rw [← htype, ← hrenders.declares.format] at hbecomes
    have htyped : node.type ≠ .null := by
      rw [htype, ne_eq, ← Raw.isNull_iff, hnull]
      exact Bool.false_ne_true
    have haccepts := Matching.accepts_of_becomes htyped hbecomes
    rw [hrenders.declares.nullable, htype, hrenders.declares.format] at haccepts
    rw [Bool.false_or, haccepts, if_neg Bool.false_ne_true]
    split
    · rfl
    · rfl

lemma matchesAtDepartures_list (hcs : cs.RenderedBy g) {items : List Raw}
    (ih : ∀ x ∈ items, cs.MatchesAtDepartures g x) : cs.MatchesAtDepartures g (.list items) := by
  intro schema child es depth value pointer hgoverns hvalue
  obtain ⟨place, node, lo, hi, rfl, hnode, hes, hrenders⟩ := hgoverns
  obtain ⟨values, rfl, hvalues⟩ := literalAt_list_eq_ok hes hvalue
  rw [Matching.mismatches, Graph.resolve_node hnode, departures_list hes]
  dsimp only
  rw [hrenders.declares.type]
  split
  · rfl
  · split
    · rcases items_of_renders hcs hrenders with
        ⟨hnone, hungoverned⟩ | ⟨child, below, hchild, hgoverns⟩
      · rw [hnone, itemDepartures_eq_nil hungoverned]
        rfl
      · rw [hchild]
        exact itemMismatches_eq hgoverns ih hvalues 0
    · rfl

lemma matchesAtDepartures_dict (hcs : cs.RenderedBy g) {members : Entries}
    (hmembers : (Raw.dict members).isTextKeyed = true)
    (ih : ∀ e ∈ members, cs.MatchesAtDepartures g e.2) :
    cs.MatchesAtDepartures g (.dict members) := by
  intro schema child es depth value pointer hgoverns hvalue
  obtain ⟨place, node, lo, hi, rfl, hnode, hes, hrenders⟩ := hgoverns
  obtain ⟨fields, rfl, hfields⟩ := literalAt_dict_eq_ok hmembers hes hvalue
  rw [Matching.mismatches, Graph.resolve_node hnode, departures_dict hes]
  dsimp only
  rw [hrenders.declares.type]
  split
  · rfl
  · split
    · exact memberMismatches_eq hcs hrenders ih hfields
    · rfl

/-- The matcher finds a mismatch at every departure of a raw literal that was converted under its
raw schema, and nowhere else. -/
theorem matchesAtDepartures (hcs : cs.RenderedBy g) {raw : Raw} (hraw : raw.isTextKeyed = true) :
    cs.MatchesAtDepartures g raw := by
  induction hsize : sizeOf raw using Nat.strongRecOn generalizing raw with
  | _ size ih =>
    cases raw with
    | list items =>
      refine matchesAtDepartures_list hcs fun x hx => ?_
      exact ih _ (hsize ▸ Raw.sizeOf_lt_list hx) (Raw.isTextKeyed_of_mem_list hraw hx) rfl
    | dict members =>
      refine matchesAtDepartures_dict hcs hraw fun e he => ?_
      exact ih _ (hsize ▸ Entries.sizeOf_lt_dict he) (Raw.isTextKeyed_of_mem_dict hraw he).2 rfl
    | pair k v => simp [Raw.isTextKeyed] at hraw
    | _ => exact matchesAtDepartures_plain (by simp) (by simp) (by simp)

end Components

end ApiLint
