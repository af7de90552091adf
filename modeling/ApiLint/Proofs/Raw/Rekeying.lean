import ApiLint.Document.Load
import ApiLint.Proofs.Raw.TextKeyed

/-!
# Rekeying

Some mappings of a document have names for keys: those that hold the schemas of the components or of
the properties, and those that are literals. A name is the text of its key, whatever the key is.
Rekeying a document puts the names themselves in the place of these keys and leaves everything else
as it is.
-/

namespace ApiLint

/-- What a value in a document is there for. -/
inductive Role
  | document | components
  /-- Schemas under their names. -/
  | schemaMap
  | schema | schemaList | literal | literalList
  /-- None of these. -/
  | plain
  deriving DecidableEq

namespace Role

/-- Whether the keys of a mapping are names. -/
def isNamed : Role → Bool
  | .schemaMap | .literal => true
  | _ => false

/-- The role of the elements of a value. -/
def element : Role → Role
  | .schemaList => .schema
  | .literal | .literalList => .literal
  | _ => .plain

/-- The keywords of a mapping, each with the role of its value. -/
def keywords : Role → Fields Role
  | .document => [("components", .components), ("definitions", .schemaMap)]
  | .components => [("schemas", .schemaMap)]
  | .schema =>
    [("properties", .schemaMap), ("items", .schema), ("additionalProperties", .schema),
      ("oneOf", .schemaList), ("anyOf", .schemaList), ("allOf", .schemaList),
      ("default", .literal), ("example", .literal), ("enum", .literalList)]
  | _ => []

/-- The role of the value under a key. -/
def under : Role → Raw → Role
  | .schemaMap, _ => .schema
  | .literal, _ => .literal
  | role, .str name => (role.keywords.find? name).getD .plain
  | _, _ => .plain

@[simp] lemma element_plain : element .plain = .plain := rfl

@[simp] lemma element_literal : element .literal = .literal := rfl

@[simp] lemma element_literalList : element .literalList = .literal := rfl

@[simp] lemma under_schemaMap (key : Raw) : under .schemaMap key = .schema := by
  cases key <;> rfl

@[simp] lemma under_literal (key : Raw) : under .literal key = .literal := by
  cases key <;> rfl

@[simp] lemma under_plain (key : Raw) : under .plain key = .plain := by
  cases key <;> rfl

end Role

namespace Raw

mutual

/-- The value with the names in it as keys. -/
def rekey (role : Role) : Raw → Raw
  | .list items => .list (rekeyAll role.element items)
  | .pair k v => .pair (k.rekey role.element) (v.rekey role.element)
  | .set items => .set (rekeyAll role.element items)
  | .dict es => .dict (rekeyEntries role es)
  | raw => raw

def rekeyAll (role : Role) : List Raw → List Raw
  | [] => []
  | x :: xs => x.rekey role :: rekeyAll role xs

/-- The entries of a mapping with names as keys. Keys that are no names are the elements of the
mapping. -/
def rekeyEntries (role : Role) : List (Raw × Raw) → List (Raw × Raw)
  | [] => []
  | (k, v) :: es =>
    (if role.isNamed then .str k.text else k.rekey role.element, v.rekey (role.under k))
      :: rekeyEntries role es

end

mutual

/-- A value without a role stays as it is. -/
@[simp] lemma rekey_plain : ∀ raw : Raw, raw.rekey .plain = raw
  | .list items | .set items => by
    rw [rekey, Role.element_plain, rekeyAll_plain items]
  | .pair k v => by
    rw [rekey, Role.element_plain, rekey_plain k, rekey_plain v]
  | .dict es => by
    rw [rekey, rekeyEntries_plain es]
  | .null | .bool _ | .int _ | .float _ | .str _ | .bytes _ | .date _ | .dateTime _ => rfl

lemma rekeyAll_plain : ∀ items : List Raw, rekeyAll .plain items = items
  | [] => rfl
  | x :: xs => by
    rw [rekeyAll, rekey_plain x, rekeyAll_plain xs]

lemma rekeyEntries_plain : ∀ es : List (Raw × Raw), rekeyEntries .plain es = es
  | [] => rfl
  | (k, v) :: es => by
    simp [rekeyEntries, Role.isNamed, Role.element, rekey_plain k, rekey_plain v,
      rekeyEntries_plain es]

end

variable {role : Role}

lemma rekeyAll_eq_map (items : List Raw) : rekeyAll role items = items.map (rekey role) := by
  induction items with
  | nil => rfl
  | cons x xs ih => rw [rekeyAll, ih, List.map_cons]

lemma rekeyEntries_eq_map (es : Entries) : rekeyEntries role es
    = es.map fun e => (if role.isNamed then .str e.1.text else e.1.rekey role.element,
      e.2.rekey (role.under e.1)) := by
  induction es with
  | nil => rfl
  | cons e es ih => rw [rekeyEntries, ih, List.map_cons]

/-! ### What rekeying keeps -/

@[simp] lemma isVoid_rekey (raw : Raw) : (raw.rekey role).isVoid = raw.isVoid := by
  cases raw with
  | list items | set items => cases items <;> rfl
  | dict es => cases es <;> rfl
  | _ => rfl

@[simp] lemma isNull_rekey (raw : Raw) : (raw.rekey role).isNull = raw.isNull := by
  cases raw <;> rfl

@[simp] lemma isMapping_rekey (raw : Raw) : (raw.rekey role).isMapping = raw.isMapping := by
  cases raw <;> rfl

@[simp] lemma kindName_rekey (raw : Raw) : (raw.rekey role).kindName = raw.kindName := by
  cases raw <;> rfl

@[simp] lemma kindPath_rekey (raw : Raw) : (raw.rekey role).kindPath = raw.kindPath := by
  cases raw <;> rfl

/-- Where neither elements nor values have a role, only the keys of a mapping may change. -/
lemma rekey_eq_self (hrole : role.element = .plain) {raw : Raw} (h : ∀ es, raw ≠ .dict es) :
    raw.rekey role = raw := by
  cases raw with
  | dict es => exact absurd rfl (h es)
  | list items | set items => rw [rekey, hrole, rekeyAll_plain]
  | pair k v => rw [rekey, hrole, rekey_plain, rekey_plain]
  | _ => rfl

/-- The elements of a value take the role of elements, unless they are names. -/
lemma elements?_rekey (hrole : role.isNamed = false) (raw : Raw) :
    (raw.rekey role).elements? = raw.elements?.map (List.map (rekey role.element)) := by
  cases raw with
  | list items | set items => simp [rekey, elements?, rekeyAll_eq_map]
  | pair k v => rfl
  | dict es =>
    simp [rekey, elements?, rekeyEntries_eq_map, hrole, Function.comp_def]
  | str s => simp [rekey, elements?, Function.comp_def]
  | bytes bs => simp [rekey, elements?, Function.comp_def]
  | _ => rfl

/-- The names in a mapping are the same. -/
lemma names_rekeyEntries (hrole : role.isNamed = true) (es : Entries) :
    (rekeyEntries role es).map (fun e => e.1.text) = es.map fun e => e.1.text := by
  simp [rekeyEntries_eq_map, hrole, Function.comp_def]

end Raw

/-! ### Names that can be written -/

namespace Raw

mutual

/-- Whether the keys that are names can all be written. -/
def writesNames (role : Role) : Raw → Bool
  | .list items => writesAllNames role.element items
  | .pair k v => k.writesNames role.element && v.writesNames role.element
  | .set items => writesAllNames role.element items
  | .dict es => writesEntryNames role es
  | _ => true

def writesAllNames (role : Role) : List Raw → Bool
  | [] => true
  | x :: xs => x.writesNames role && writesAllNames role xs

def writesEntryNames (role : Role) : List (Raw × Raw) → Bool
  | [] => true
  | (k, v) :: es =>
    (if role.isNamed then k.isWritable else k.writesNames role.element)
      && v.writesNames (role.under k) && writesEntryNames role es

end

variable {role : Role}

lemma writesAllNames_iff {items : List Raw} :
    writesAllNames role items = true ↔ ∀ raw ∈ items, raw.writesNames role = true := by
  induction items with
  | nil => simp [writesAllNames]
  | cons x xs ih => simp [writesAllNames, ih]

lemma writesEntryNames_iff {es : List (Raw × Raw)} :
    writesEntryNames role es = true ↔ ∀ e ∈ es,
      (if role.isNamed then e.1.isWritable else e.1.writesNames role.element) = true
        ∧ e.2.writesNames (role.under e.1) = true := by
  induction es with
  | nil => simp [writesEntryNames]
  | cons e es ih => simp [writesEntryNames, ih]

/-- The names of a mapping can be written. -/
lemma isWritable_of_writesNames {es : Entries} (hnamed : role.isNamed = true)
    (h : (dict es).writesNames role = true) : ∀ e ∈ es, e.1.isWritable = true := by
  intro e he
  rw [writesNames, writesEntryNames_iff] at h
  simpa [hnamed] using (h e he).1

lemma writesNames_under {es : Entries} (h : (dict es).writesNames role = true) :
    ∀ e ∈ es, e.2.writesNames (role.under e.1) = true := by
  rw [writesNames, writesEntryNames_iff] at h
  exact fun e he => (h e he).2

/-- The elements of a value write their names, unless they are names themselves. -/
lemma writesNames_of_elements? (hnamed : role.isNamed = false) {raw : Raw} {items : List Raw}
    (h : raw.writesNames role = true) (hitems : raw.elements? = some items) :
    ∀ item ∈ items, item.writesNames role.element = true := by
  cases raw with
  | list raws | set raws =>
    cases hitems
    exact writesAllNames_iff.mp h
  | pair k v =>
    cases hitems
    simpa [writesNames] using h
  | dict es =>
    cases hitems
    rw [writesNames, writesEntryNames_iff] at h
    intro item hitem
    obtain ⟨e, he, rfl⟩ := List.mem_map.mp hitem
    simpa [hnamed] using (h e he).1
  | str s =>
    cases hitems
    intro item hitem
    obtain ⟨c, -, rfl⟩ := List.mem_map.mp hitem
    rfl
  | bytes bs =>
    cases hitems
    intro item hitem
    obtain ⟨b, -, rfl⟩ := List.mem_map.mp hitem
    rfl
  | _ => cases hitems

mutual

/-- If its names can be written, a value can be written exactly if the rekeyed value can. -/
lemma isWritable_rekey : ∀ (raw : Raw) (role : Role), raw.writesNames role = true →
    (raw.rekey role).isWritable = raw.isWritable
  | .list items, role, h | .set items, role, h => by
    rw [rekey, isWritable, isWritable, allWritable_rekeyAll items role.element h]
  | .pair k v, role, h => by
    rw [writesNames, Bool.and_eq_true] at h
    rw [rekey, isWritable, isWritable, isWritable_rekey k _ h.1, isWritable_rekey v _ h.2]
  | .dict es, role, h => by
    rw [rekey, isWritable, isWritable, entriesWritable_rekeyEntries es role h]
  | .null, _, _ | .bool _, _, _ | .int _, _, _ | .float _, _, _ | .str _, _, _ | .bytes _, _, _
  | .date _, _, _ | .dateTime _, _, _ => rfl

lemma allWritable_rekeyAll : ∀ (items : List Raw) (role : Role), writesAllNames role items = true →
    allWritable (rekeyAll role items) = allWritable items
  | [], _, _ => rfl
  | x :: xs, role, h => by
    rw [writesAllNames, Bool.and_eq_true] at h
    rw [rekeyAll, allWritable, allWritable, isWritable_rekey x role h.1,
      allWritable_rekeyAll xs role h.2]

lemma entriesWritable_rekeyEntries : ∀ (es : List (Raw × Raw)) (role : Role),
    writesEntryNames role es = true → entriesWritable (rekeyEntries role es) = entriesWritable es
  | [], _, _ => rfl
  | (k, v) :: es, role, h => by
    simp only [writesEntryNames, Bool.and_eq_true] at h
    obtain ⟨⟨hkey, hvalue⟩, hes⟩ := h
    rw [rekeyEntries, entriesWritable, entriesWritable, isWritable_rekey v _ hvalue,
      entriesWritable_rekeyEntries es role hes]
    cases hnamed : role.isNamed with
    | true => simp_all
    | false => simp_all [isWritable_rekey k]

end

end Raw

/-! ### Lookups -/

namespace Entries

variable {role : Role} {es : Entries} {name : String}

/-- If the name is the text of a key, then the key is the name itself. -/
def IsOwnKey (es : Entries) (name : String) : Prop := ∀ e ∈ es, e.1.text = name → e.1 = .str name

/-- Under a keyword the value is the same up to rekeying. -/
lemma field?_rekeyEntries (hnamed : role.isNamed = false) (helement : role.element = .plain) :
    field? (Raw.rekeyEntries role es) name
      = (es.field? name).map (Raw.rekey (role.under (.str name))) := by
  induction es with
  | nil => rfl
  | cons e es ih =>
    obtain ⟨key, value⟩ := e
    simp only [Raw.rekeyEntries, hnamed, helement, Raw.rekey_plain, Bool.false_eq_true, if_false]
    by_cases hkey : key = .str name
    · subst hkey
      rw [field?_cons_self, field?_cons_self, Option.map_some]
    · rw [field?_cons_of_ne hkey, field?_cons_of_ne hkey, ih]

/-- Under a name the value is the same up to rekeying, if the name is the text of no other key. -/
lemma field?_rekeyEntries_of_isOwnKey (hnamed : role.isNamed = true) (h : es.IsOwnKey name) :
    field? (Raw.rekeyEntries role es) name
      = (es.field? name).map (Raw.rekey (role.under (.str name))) := by
  induction es with
  | nil => rfl
  | cons e es ih =>
    obtain ⟨key, value⟩ := e
    obtain ⟨hfirst, hrest⟩ := List.forall_mem_cons.mp h
    simp only [Raw.rekeyEntries, hnamed, if_true]
    by_cases hkey : key = .str name
    · subst hkey
      rw [Raw.text_str, field?_cons_self, field?_cons_self, Option.map_some]
    · have hne : Raw.str key.text ≠ .str name := fun heq => hkey (hfirst (Raw.str.inj heq))
      rw [field?_cons_of_ne hne, field?_cons_of_ne hkey, ih hrest]

/-- Under a keyword without a role the value is the same. -/
lemma field?_rekeyEntries_plain (hnamed : role.isNamed = false) (helement : role.element = .plain)
    (hname : role.under (.str name) = .plain) :
    field? (Raw.rekeyEntries role es) name = es.field? name := by
  rw [field?_rekeyEntries hnamed helement, hname, Option.map_congr fun raw _ => Raw.rekey_plain raw,
    Option.map_id']

lemma field_rekeyEntries_plain (hnamed : role.isNamed = false) (helement : role.element = .plain)
    (hname : role.under (.str name) = .plain) :
    field (Raw.rekeyEntries role es) name = es.field name := by
  rw [field, field?_rekeyEntries_plain hnamed helement hname, field]

/-- What is under a name writes the names that it has. -/
lemma writesNames_of_field? (h : (Raw.dict es).writesNames role = true) {value : Raw}
    (hvalue : es.field? name = some value) :
    value.writesNames (role.under (.str name)) = true :=
  Raw.writesNames_under h _ (mem_of_field? hvalue)

lemma writesNames_field (h : (Raw.dict es).writesNames role = true) (name : String) :
    (es.field name).writesNames (role.under (.str name)) = true := by
  rw [field]
  cases hvalue : es.field? name with
  | none => rfl
  | some value => exact writesNames_of_field? h hvalue

lemma field_rekeyEntries (hnamed : role.isNamed = false) (helement : role.element = .plain) :
    field (Raw.rekeyEntries role es) name = (es.field name).rekey (role.under (.str name)) := by
  rw [field, field?_rekeyEntries hnamed helement, field]
  cases es.field? name <;> rfl

end Entries

/-! ### Conversions -/

namespace Literal

mutual

/-- The names in a literal are all that a conversion takes of the keys. -/
lemma ofRaw_rekey : ∀ raw type format : Raw, raw.writesNames .literal = true →
    ofRaw type format (raw.rekey .literal) = ofRaw type format raw
  | .list items, _, _, h => by
    rw [Raw.rekey, ofRaw, ofRaw, Role.element_literal, ofItems_rekeyAll items h]
  | .pair k v, _, _, h => by
    rw [Raw.writesNames, Bool.and_eq_true] at h
    rw [Raw.rekey, ofRaw, ofRaw, Role.element_literal, ofRaw_rekey k _ _ h.1,
      ofRaw_rekey v _ _ h.2]
  | .dict es, _, _, h => by
    rw [Raw.rekey, ofRaw, ofRaw, ofEntries_rekeyEntries es _ h]
  | .null, _, _, _ | .bool _, _, _, _ | .int _, _, _, _ | .float _, _, _, _ | .str _, _, _, _
  | .bytes _, _, _, _ | .date _, _, _, _ | .dateTime _, _, _, _ | .set _, _, _, _ => rfl

lemma ofItems_rekeyAll : ∀ raws : List Raw, Raw.writesAllNames .literal raws = true →
    ofItems (Raw.rekeyAll .literal raws) = ofItems raws
  | [], _ => rfl
  | raw :: raws, h => by
    rw [Raw.writesAllNames, Bool.and_eq_true] at h
    rw [Raw.rekeyAll, ofItems, ofItems, ofRaw_rekey raw _ _ h.1, ofItems_rekeyAll raws h.2]

lemma ofEntries_rekeyEntries : ∀ (es : List (Raw × Raw)) (before : Fields Literal),
    Raw.writesEntryNames .literal es = true →
    ofEntries before (Raw.rekeyEntries .literal es) = ofEntries before es
  | [], _, _ => rfl
  | (k, v) :: es, before, h => by
    simp only [Raw.writesEntryNames, Role.isNamed, if_true, Role.under_literal,
      Bool.and_eq_true] at h
    obtain ⟨⟨hkey, hvalue⟩, hes⟩ := h
    have hnames : Raw.requireTexts [.str k.text] = Raw.requireTexts [k] := by
      simp [Raw.requireTexts, hkey]
    simp only [Raw.rekeyEntries, Role.isNamed, if_true, ofEntries, Raw.text_str, Role.under_literal,
      hnames, ofRaw_rekey v _ _ hvalue, ofEntries_rekeyEntries es _ hes]

end

end Literal

end ApiLint
