import ApiLint.Proofs.Document.Correspondence

/-!
# Corresponding documents load alike

If the components of a document load, then so do components that correspond to them. What the
schemas come to differs in the names and the pointers; that they come to something at all does not
depend on these.
-/

namespace ApiLint

/-- Computations that come to related values, or both to none. -/
def Comparable {ε α β : Type} (R : α → β → Prop) (x : Except ε α) (y : Except ε β) : Prop :=
  Option.Rel R x.toOption y.toOption

namespace Comparable

variable {ε α β γ δ : Type} {R : α → β → Prop} {S : γ → δ → Prop} {x : Except ε α} {y : Except ε β}

lemma ok {a : α} {b : β} (h : R a b) : Comparable R (.ok a : Except ε α) (.ok b) := .some h

lemma errors (e e' : ε) : Comparable R (.error e) (.error e') := .none

lemma refl (x : Except ε α) : Comparable Eq x x := by
  cases x with
  | error e => exact .none
  | ok a => exact .some rfl

lemma rel (h : Comparable R x y) {a : α} {b : β} (ha : x = .ok a) (hb : y = .ok b) : R a b := by
  subst ha hb
  cases h with
  | some hR => exact hR

lemma exists_ok_iff (h : Comparable R x y) : (∃ a, x = .ok a) ↔ ∃ b, y = .ok b := by
  cases x with
  | error e =>
    cases y with
    | error e' => simp
    | ok b => cases h
  | ok a =>
    cases y with
    | error e' => cases h
    | ok b => simp

lemma bind {f : α → Except ε γ} {g : β → Except ε δ} (h : Comparable R x y)
    (hnext : ∀ a b, x = .ok a → y = .ok b → R a b → Comparable S (f a) (g b)) :
    Comparable S (x >>= f) (y >>= g) := by
  cases x with
  | error e =>
    cases y with
    | error e' => exact .none
    | ok b => cases h
  | ok a =>
    cases y with
    | error e' => cases h
    | ok b => exact hnext a b rfl rfl (h.rel rfl rfl)

end Comparable

/-- If one computation comes to a value, then so does another. If the two are meant to be the same,
they come to the same values. -/
structure Ensures {ε α : Type} (same : Prop) (x y : Except ε α) : Prop where
  exists_ok : ∀ a, x = .ok a → ∃ b, y = .ok b
  comparable : same → Comparable Eq x y

namespace Ensures

variable {ε α β : Type} {same : Prop} {x y : Except ε α}

lemma refl (x : Except ε α) : Ensures same x x := ⟨fun a h => ⟨a, h⟩, fun _ => .refl x⟩

lemma of_ok {a b : α} (h : same → b = a) : Ensures same (.ok a : Except ε α) (.ok b) :=
  ⟨fun _ _ => ⟨b, rfl⟩, fun hsame => .ok (h hsame).symm⟩

lemma of_errors (e e' : ε) : Ensures same (.error e : Except ε α) (.error e') := by
  constructor
  · intro a h
    cases h
  · exact fun _ => .errors e e'

lemma of_comparable (h : Comparable Eq x y) : Ensures same x y :=
  ⟨fun a ha => h.exists_ok_iff.mp ⟨a, ha⟩, fun _ => h⟩

lemma bind {f g : α → Except ε β} (h : Ensures same x y)
    (hnext : ∀ a b, x = .ok a → y = .ok b → (same → b = a) → Ensures same (f a) (g b)) :
    Ensures same (x >>= f) (y >>= g) := by
  constructor
  · intro c hc
    obtain ⟨a, ha, hf⟩ := bind_eq_ok_iff.mp hc
    obtain ⟨b, hb⟩ := h.exists_ok a ha
    have heq : same → b = a := fun hsame => ((h.comparable hsame).rel ha hb).symm
    obtain ⟨d, hd⟩ := (hnext a b ha hb heq).exists_ok c hf
    exact ⟨d, bind_eq_ok_iff.mpr ⟨b, hb, hd⟩⟩
  · intro hsame
    refine (h.comparable hsame).bind fun a b ha hb hab => ?_
    exact (hnext a b ha hb fun _ => hab.symm).comparable hsame

lemma map {f : α → β} (h : Ensures same x y) : Ensures same (x.map f) (y.map f) := by
  have hmap : ∀ x : Except ε α, x.map f = x >>= fun a => .ok (f a) := by
    intro x
    cases x <;> rfl
  rw [hmap, hmap]
  exact h.bind fun a b _ _ heq => .of_ok fun hsame => by rw [heq hsame]

end Ensures

namespace Components

/-- If a raw schema is read at some pointer, then another one is read at every pointer. If the two
are meant to be the same, they are read as the same schema. -/
def EnsuresAt (same : Prop) (cs cs' : Components) (raw raw' : Raw) : Prop :=
  ∀ pointer pointer', Ensures same (cs.schemaAt pointer raw) (cs'.schemaAt pointer' raw')

variable {cs cs' : Components} {ρ : String → String → Prop} {E : Raw → Raw → Prop}
  {es es' : Entries} {same : Prop}

lemma ensuresAt_of_not_mapping {raw raw' : Raw} (h : raw.isMapping = false)
    (h' : raw'.isMapping = false) : EnsuresAt same cs cs' raw raw' := by
  have hschemaAt : ∀ (cs : Components) (pointer : Pointer) (raw : Raw), raw.isMapping = false →
      ∃ e, cs.schemaAt pointer raw = .error e := by
    intro cs pointer raw hraw
    cases raw with
    | dict es => cases hraw
    | _ => exact ⟨_, schemaAt_of_not_dict (by simp) pointer⟩
  intro pointer pointer'
  obtain ⟨e, he⟩ := hschemaAt cs pointer raw h
  obtain ⟨e', he'⟩ := hschemaAt cs' pointer' raw' h'
  rw [he, he']
  exact .of_errors e e'

/-! ### Parts of a schema -/

lemma ensures_namedSchemasAt
    (h : List.Forall₂ (fun e e' : Raw × Raw => e.1 = e'.1 ∧ EnsuresAt same cs cs' e.2 e'.2) es es')
    (pointer pointer' : Pointer) :
    Ensures same (cs.namedSchemasAt pointer es) (cs'.namedSchemasAt pointer' es') := by
  induction h with
  | nil =>
    rw [namedSchemasAt, namedSchemasAt]
    exact .refl _
  | @cons e e' _ _ head _ ih =>
    obtain ⟨key, raw⟩ := e
    obtain ⟨key', raw'⟩ := e'
    obtain ⟨rfl, hraw⟩ := head
    rw [namedSchemasAt, namedSchemasAt]
    apply Ensures.bind (.refl _)
    intro _ _ _ _ _
    apply Ensures.bind (hraw _ _)
    intro schema schema' _ _ hschema
    apply Ensures.bind ih
    exact fun rest rest' _ _ hrest => .of_ok fun hsame => by rw [hschema hsame, hrest hsame]

lemma ensures_schemasAt {raws raws' : List Raw}
    (h : List.Forall₂ (EnsuresAt same cs cs') raws raws') (pointer pointer' : Pointer)
    (index : Nat) :
    Ensures same (cs.schemasAt pointer index raws) (cs'.schemasAt pointer' index raws') := by
  induction h generalizing index with
  | nil =>
    rw [schemasAt, schemasAt]
    exact .refl _
  | cons head _ ih =>
    rw [schemasAt, schemasAt]
    apply Ensures.bind (head _ _)
    intro schema schema' _ _ hschema
    apply Ensures.bind (ih (index + 1))
    exact fun rest rest' _ _ hrest => .of_ok fun hsame => by rw [hschema hsame, hrest hsame]

lemma ensures_propertiesAt {raw raw' : Raw}
    (h : Entries.MappingsAlike (EnsuresAt same cs cs') raw raw') (pointer pointer' : Pointer) :
    Ensures same (cs.propertiesAt pointer raw) (cs'.propertiesAt pointer' raw') := by
  rcases h with ⟨es, es', rfl, rfl, hforall⟩ | ⟨hnot, rfl⟩
  · rw [propertiesAt, propertiesAt]
    exact ensures_namedSchemasAt hforall pointer pointer'
  · rw [propertiesAt_of_not_dict hnot, propertiesAt_of_not_dict hnot]
    exact .refl _

lemma ensures_membersAt {raw raw' : Raw}
    (h : Entries.ListsAlike (EnsuresAt same cs cs') raw raw') (pointer pointer' : Pointer) :
    Ensures same (cs.membersAt pointer raw) (cs'.membersAt pointer' raw') := by
  rcases h with ⟨raws, raws', rfl, rfl, hforall⟩ | ⟨hnot, rfl⟩
  · rw [membersAt, membersAt]
    exact ensures_schemasAt hforall pointer pointer' 0
  · rw [membersAt_of_not_list hnot, membersAt_of_not_list hnot]
    apply Ensures.bind (.refl _)
    intro elements _ helements helements' _
    rw [helements] at helements'
    cases helements'
    cases elements with
    | nil => exact .refl _
    | cons first _ => exact .of_errors _ _

/-- Pointers only stand in errors. -/
lemma ensures_discriminatorOf (pointer pointer' : Pointer) (raw : Raw) :
    Ensures same (discriminatorOf pointer raw) (discriminatorOf pointer' raw) := by
  unfold discriminatorOf
  split
  · exact .refl _
  · exact .refl _
  · split
    · exact .refl _
    · exact .of_errors _ _
  · exact .of_errors _ _

/-! ### Literals -/

lemma literals_eq (hliteral : ∀ raw, cs'.literal es' raw = cs.literal es raw) (raws : List Raw) :
    cs'.literals es' raws = cs.literals es raws := by
  induction raws with
  | nil => rfl
  | cons raw raws ih => rw [literals, literals, hliteral, ih]

lemma ensures_slot {name : String} {set set' : Literal → SchemaNode Schema}
    {kept kept' : SchemaNode Schema}
    {next next' : SchemaNode Schema → Except LoadError (SchemaNode Schema)}
    (hfield : es'.field? name = es.field? name)
    (hliteral : ∀ raw, cs'.literal es' raw = cs.literal es raw)
    (hset : ∀ value, same → set' value = set value) (hkept : same → kept' = kept)
    (hnext : ∀ node node', (same → node' = node) → Ensures same (next node) (next' node')) :
    Ensures same
      (match es.field? name with
      | some raw => do next (← pure (set (← cs.literal es raw)))
      | none => do next (← pure kept))
      (match es'.field? name with
      | some raw => do next' (← pure (set' (← cs'.literal es' raw)))
      | none => do next' (← pure kept')) := by
  rw [hfield]
  cases es.field? name with
  | none => exact hnext kept kept' hkept
  | some raw =>
    dsimp only
    rw [hliteral]
    apply Ensures.bind (.refl _)
    intro value value' _ _ hvalue
    apply hnext
    intro hsame
    rw [hvalue hsame, hset value hsame]

lemma ensures_withLiterals (h : cs.ReadsAlike cs' E) (hes : E (.dict es) (.dict es'))
    (halike : es.Alike E es') {node node' : SchemaNode Schema} (hnode : same → node' = node) :
    Ensures same (cs.withLiterals es node) (cs'.withLiterals es' node') := by
  have hliteral : ∀ raw, cs'.literal es' raw = cs.literal es raw := h.literal_eq hes
  rw [withLiterals, withLiterals]
  apply ensures_slot (halike.other _ (by decide)) hliteral
    (fun value hsame => by rw [hnode hsame]) hnode
  intro first first' hfirst
  apply ensures_slot (halike.other _ (by decide)) hliteral
    (fun value hsame => by rw [hfirst hsame]) hfirst
  intro second second' hsecond
  rw [halike.field_eq (by decide)]
  apply Ensures.bind (.refl _)
  intro raws _ hraws hraws' _
  rw [hraws] at hraws'
  cases hraws'
  rw [literals_eq hliteral]
  apply Ensures.bind (.refl _)
  exact fun values values' _ _ hvalues => .of_ok fun hsame => by rw [hsecond hsame, hvalues hsame]

/-! ### Schemas -/

/-- Reading a schema in line ensures reading one that is written alike, if it is so for all schemas
below. -/
lemma ensures_fill (h : cs.ReadsAlike cs' E) (hes : E (.dict es) (.dict es'))
    (halike : es.Alike E es') (hbelow : es.Alike (EnsuresAt same cs cs') es')
    (pointer pointer' : Pointer) {node node' : SchemaNode Schema} (hnode : same → node' = node) :
    Ensures same (cs.fill pointer node es (cs.partsAt pointer es))
      (cs'.fill pointer' node' es' (cs'.partsAt pointer' es')) := by
  rw [fill, fill, partsAt_eq, partsAt_eq]
  -- The parts are read one after the other, in the order of the code: each is the same, or of one
  -- corresponding to it, unless an earlier one fails.
  apply Ensures.bind
  · rw [requiredNames, requiredNames, halike.field_eq (by decide)]
    exact .refl _
  intro required required' _ _ hrequired
  apply Ensures.bind (ensures_propertiesAt hbelow.properties _ _)
  intro properties properties' _ _ hproperties
  apply Ensures.bind
  · dsimp only
    rw [h.isNull_eq halike.items]
    split
    · exact .refl _
    · exact .map (hbelow.items _ _)
  intro items items' _ _ hitems
  apply Ensures.bind
  · dsimp only
    rw [h.isMapping_eq halike.additional]
    split
    · exact .map (hbelow.additional _ _)
    · exact .refl _
  intro additional additional' _ _ hadditional
  apply Ensures.bind (ensures_membersAt (hbelow.composition .oneOf) _ _)
  intro oneOf oneOf' _ _ honeOf
  apply Ensures.bind (ensures_membersAt (hbelow.composition .anyOf) _ _)
  intro anyOf anyOf' _ _ hanyOf
  apply Ensures.bind (ensures_membersAt (hbelow.composition .allOf) _ _)
  intro allOf allOf' _ _ hallOf
  apply Ensures.bind
  · rw [halike.field_eq (by decide)]
    exact ensures_discriminatorOf pointer pointer' _
  intro discriminator discriminator' _ _ hdiscriminator
  apply ensures_withLiterals h hes halike
  intro hsame
  simp only [withHead, halike.field_eq (show "type" ∉ Entries.leading by decide),
    halike.field_eq (show "format" ∉ Entries.leading by decide),
    halike.field_eq (show "nullable" ∉ Entries.leading by decide),
    halike.field_eq (show "x-nullable" ∉ Entries.leading by decide), hnode hsame, hrequired hsame,
    hproperties hsame, hitems hsame, hadditional hsame, honeOf hsame, hanyOf hsame, hallOf hsame,
    hdiscriminator hsame]

/-- Reading a schema ensures reading a related one, if it is so for references. -/
lemma ensuresAt_of_readsAlike (h : cs.ReadsAlike cs' E)
    (hform : ∀ (es : Entries) raw', E (.dict es) raw' → EnsuresAt same cs cs' (.dict es) raw'
      ∨ ∃ es' : Entries, raw' = .dict es' ∧ es.field? "$ref" = none ∧ es'.field? "$ref" = none
        ∧ es.Alike E es')
    {raw raw' : Raw} (hraw : E raw raw') : EnsuresAt same cs cs' raw raw' := by
  induction hsize : sizeOf raw using Nat.strongRecOn generalizing raw raw' with
  | _ size ih =>
    cases hmapping : raw.isMapping with
    | false => exact ensuresAt_of_not_mapping hmapping (h.isMapping_eq hraw ▸ hmapping)
    | true =>
      obtain ⟨es, rfl⟩ := Raw.exists_dict_of_isMapping hmapping
      rcases hform es raw' hraw with hensures | ⟨es', rfl, hplain, hplain', halike⟩
      · exact hensures
      · intro pointer pointer'
        rw [schemaAt, schemaAt, hplain, hplain']
        apply Ensures.map
        refine ensures_fill h hraw halike (halike.of_smaller ?_ ?_) _ _ fun _ => rfl
        · exact fun _ hnull => ensuresAt_of_not_mapping rfl (h.isMapping_eq hnull)
        · intro below below' hlt hbelow
          simp only [Raw.dict.sizeOf_spec] at hsize
          exact ih _ (by omega) hbelow rfl

/-- Reading a schema ensures reading a corresponding one. -/
lemma ensuresAt_of_corresponds (h : cs.Corresponds cs' ρ E) {raw raw' : Raw} (hraw : E raw raw') :
    EnsuresAt False cs cs' raw raw' := by
  refine ensuresAt_of_readsAlike h.readsAlike ?_ hraw
  intro es raw' hraw
  cases h.form hraw with
  | other hmapping => cases hmapping
  | reference hname hname' hnames =>
    obtain ⟨es', text', rfl, hreference', htext'⟩ := exists_dict_of_referredName? hname'
    obtain ⟨_, _, _, _, _, hends', _⟩ := h.ends hnames
    refine .inl fun pointer pointer' => ⟨fun _ _ => ?_, False.elim⟩
    rw [schemaAt, hreference']
    simp only [resolve, htext', if_pos hends'.mem_names]
    exact ⟨_, rfl⟩
  | inline hplain hplain' halike => exact .inr ⟨_, rfl, hplain, hplain', halike⟩

/-! ### Components -/

/-- Each of the entries that were loaded was added to what was loaded before. -/
lemma exists_addComponent_of_load {loaded d : LoadedDocument} (h : cs.load es loaded = .ok d) :
    ∀ e ∈ es, ∃ before next, cs.addComponent before e.1 e.2 = .ok next := by
  induction es generalizing loaded with
  | nil => simp
  | cons e es ih =>
    obtain ⟨next, hnext, hrest⟩ := load_cons_eq_ok h
    exact List.forall_mem_cons.mpr ⟨⟨loaded, next, hnext⟩, ih hrest⟩

lemma exists_load (h : ∀ e ∈ es, ∀ before, ∃ next, cs.addComponent before e.1 e.2 = .ok next)
    (loaded : LoadedDocument) : ∃ d, cs.load es loaded = .ok d := by
  induction es generalizing loaded with
  | nil => exact ⟨loaded, rfl⟩
  | cons e es ih =>
    obtain ⟨he, hes⟩ := List.forall_mem_cons.mp h
    obtain ⟨next, hnext⟩ := he loaded
    obtain ⟨d, hd⟩ := ih hes next
    exact ⟨d, bind_eq_ok_iff.mpr ⟨next, hnext, hd⟩⟩

/-- A component can be added, whatever was added before, if it corresponds to one that is loaded:
the shape at the end of its aliases is written like a shape that was read. -/
lemma exists_addComponent_of_corresponds (hcs : (Raw.dict cs.entries).isTextKeyed = true)
    (hcs' : (Raw.dict cs'.entries).isTextKeyed = true) (h : cs.Corresponds cs' ρ E)
    {loaded d : LoadedDocument} (hload : cs.load cs.entries loaded = .ok d) {e' : Raw × Raw}
    (he' : e' ∈ cs'.entries) {name : String} (hname : ρ name e'.1.text) (before : LoadedDocument) :
    ∃ next, cs'.addComponent before e'.1 e'.2 = .ok next := by
  obtain ⟨target, target', es, es', hends, hends', hes⟩ := h.ends hname
  obtain ⟨e, he, rfl⟩ := List.mem_map.mp hends.mem_names
  obtain ⟨earlier, next, hnext⟩ := exists_addComponent_of_load hload e he
  obtain ⟨_, shape, node, htarget, hfill, -⟩ := addComponent_eq_ok_iff.mp hnext
  obtain ⟨-, heq⟩ := hends.unique
    ((aliasTarget_eq_ok_iff (Raw.field?_text_of_mem hcs he)).mp htarget)
  cases heq
  have halike := h.alike hes hends.plain
  have hbelow : ∀ raw raw', E raw raw' → EnsuresAt False cs cs' raw raw' :=
    fun _ _ hE => ensuresAt_of_corresponds h hE
  -- only success is carried over, and so it does not matter what the shapes are filled into
  have hensures := ensures_fill h.readsAlike hes halike
    (halike.of_smaller (fun _ => hbelow _ _) fun _ _ _ => hbelow _ _) (cs.pointerTo e.1.text)
    (cs'.pointerTo e'.1.text)
    (False.elim : False → nodeBefore before e'.1.text = nodeBefore earlier e.1.text)
  obtain ⟨node', hnode'⟩ := hensures.exists_ok _ hfill
  have htarget' := (aliasTarget_eq_ok_iff (Raw.field?_text_of_mem hcs' he')).mpr hends'
  exact ⟨_, addComponent_eq_ok_iff.mpr ⟨target', es', node', htarget', hnode', rfl⟩⟩

end Components

namespace LoadedDocument

variable {document document' : Raw} {d : LoadedDocument} {cs cs' : Components}
  {ρ : String → String → Prop} {E : Raw → Raw → Prop}

/-- A document loads if another one does and its components correspond to components of that. -/
lemma exists_of_corresponds (hdocument : document.isTextKeyed = true)
    (hdocument' : document'.isTextKeyed = true) (hcs : Components.ofDocument document = .ok cs)
    (hcs' : Components.ofDocument document' = .ok cs') (h : ofRaw document = .ok d)
    (hcorresponds : cs.Corresponds cs' ρ E) (hnames : ∀ name' ∈ cs'.names, ∃ name, ρ name name') :
    ∃ d', ofRaw document' = .ok d' := by
  have hkeyed := Components.isTextKeyed_of_ofDocument hdocument hcs
  have hkeyed' := Components.isTextKeyed_of_ofDocument hdocument' hcs'
  obtain ⟨_, hload, -, h⟩ := ofRaw_eq_ok_iff.mp h
  rw [hcs] at hload
  cases hload
  have hadded : ∀ e' ∈ cs'.entries, ∀ before,
      ∃ next, cs'.addComponent before e'.1 e'.2 = .ok next := by
    intro e' he'
    obtain ⟨name, hname⟩ := hnames _ (List.mem_map_of_mem he')
    exact Components.exists_addComponent_of_corresponds hkeyed hkeyed' hcorresponds h he' hname
  obtain ⟨d', hd'⟩ := Components.exists_load hadded { version := cs'.version }
  refine ⟨d', ofRaw_eq_ok_iff.mpr ⟨cs', hcs', fun e' he' => ?_, hd'⟩⟩
  obtain ⟨⟨name, hname⟩, -⟩ := Raw.isTextKeyed_of_mem_dict hkeyed' he'
  rw [hname, Raw.isWritable_str]

end LoadedDocument

end ApiLint
