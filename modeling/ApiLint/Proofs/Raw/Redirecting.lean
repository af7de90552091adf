import ApiLint.Proofs.Matching.Equations
import ApiLint.Proofs.Raw.Rekeying

/-!
# Redirecting

Redirecting a document puts other references in the place of those in its schemas and leaves
everything else as it is. What becomes of a reference may depend on the path of keys and indices
that leads to it, so that some references to a component can be replaced and others not.
-/

namespace ApiLint

/-- Whether there is no schema in a value with the role. -/
def Role.isInert : Role → Bool
  | .plain | .literal | .literalList => true
  | _ => false

namespace Role

variable {role : Role}

lemma isInert_element (h : role.isInert = true) : role.element.isInert = true := by
  cases role <;> first | rfl | cases h

lemma isInert_under (h : role.isInert = true) (key : Raw) : (role.under key).isInert = true := by
  cases role with
  | plain => rw [under_plain]; rfl
  | literal => rw [under_literal]; rfl
  | literalList => cases key <;> rfl
  | _ => cases h

lemma ne_schema_of_isInert (h : role.isInert = true) : role ≠ .schema := by
  rintro rfl
  cases h

end Role

namespace Raw

mutual

/-- The value at a path with other references in the schemas in it. -/
def redirect (g : List String → Raw → Raw) (path : List String) (role : Role) : Raw → Raw
  | .list items => .list (redirectAll g path role.element 0 items)
  | .dict es => .dict (redirectEntries g path role es)
  | raw => raw

/-- The elements of a list, the first of which has the given index. -/
def redirectAll (g : List String → Raw → Raw) (path : List String) (role : Role) (index : Nat) :
    List Raw → List Raw
  | [] => []
  | x :: xs =>
    x.redirect g (path ++ [writtenNat index]) role :: redirectAll g path role (index + 1) xs

def redirectEntries (g : List String → Raw → Raw) (path : List String) (role : Role) :
    List (Raw × Raw) → List (Raw × Raw)
  | [] => []
  | (key, value) :: es =>
    (key, if role = .schema ∧ key.isText "$ref" = true then g (path ++ [key.text]) value
      else value.redirect g (path ++ [key.text]) (role.under key)) :: redirectEntries g path role es

end

variable {g : List String → Raw → Raw} {role : Role}

mutual

/-- A value stays as it is if there is no schema in it, or if references stay as they are. -/
lemma redirect_eq_self : ∀ (raw : Raw) (path : List String) {role : Role},
    role.isInert = true ∨ (∀ path raw, g path raw = raw) → raw.redirect g path role = raw
  | .list items, path, _, h => by
    rw [redirect, redirectAll_eq_self items path 0 (h.imp_left Role.isInert_element)]
  | .dict es, path, _, h => by
    rw [redirect, redirectEntries_eq_self es path h]
  | .null, _, _, _ | .bool _, _, _, _ | .int _, _, _, _ | .float _, _, _, _ | .str _, _, _, _
  | .bytes _, _, _, _ | .date _, _, _, _ | .dateTime _, _, _, _ | .set _, _, _, _
  | .pair _ _, _, _, _ => rfl

lemma redirectAll_eq_self : ∀ (items : List Raw) (path : List String) (index : Nat) {role : Role},
    role.isInert = true ∨ (∀ path raw, g path raw = raw) →
    redirectAll g path role index items = items
  | [], _, _, _, _ => rfl
  | x :: xs, path, index, _, h => by
    rw [redirectAll, redirect_eq_self x _ h, redirectAll_eq_self xs path (index + 1) h]

lemma redirectEntries_eq_self : ∀ (es : List (Raw × Raw)) (path : List String) {role : Role},
    role.isInert = true ∨ (∀ path raw, g path raw = raw) → redirectEntries g path role es = es
  | [], _, _, _ => rfl
  | (key, value) :: es, path, role, h => by
    rw [redirectEntries, redirectEntries_eq_self es path h,
      redirect_eq_self value _ (h.imp_left fun hinert => Role.isInert_under hinert key)]
    split
    · next hreference =>
      rcases h with hinert | hg
      · exact absurd hreference.1 (Role.ne_schema_of_isInert hinert)
      · rw [hg]
    · rfl

end

/-- Where only a mapping may hold schemas, any other value stays as it is. -/
lemma redirect_of_not_dict (hrole : role.element.isInert = true) {raw : Raw}
    (h : ∀ es, raw ≠ .dict es) (path : List String) : raw.redirect g path role = raw := by
  cases raw with
  | dict es => exact absurd rfl (h es)
  | list items => rw [redirect, redirectAll_eq_self items path 0 (.inl hrole)]
  | _ => rfl

/-- Where only a list may hold schemas, any other value stays as it is. -/
lemma redirect_of_not_list {raw : Raw} (h : ∀ raws, raw ≠ .list raws) (path : List String) :
    raw.redirect g path .schemaList = raw := by
  cases raw with
  | list items => exact absurd rfl (h items)
  | dict es =>
    rw [redirect]
    congr 1
    induction es with
    | nil => rfl
    | cons e es ih =>
      obtain ⟨key, value⟩ := e
      have hunder : (Role.under .schemaList key).isInert = true := by cases key <;> rfl
      rw [redirectEntries, if_neg (by simp), redirect_eq_self value _ (.inl hunder), ih (by simp)]
  | _ => rfl

lemma forall₂_redirectAll (items : List Raw) (path : List String) (index : Nat) :
    List.Forall₂ (fun x x' => ∃ path, x' = x.redirect g path role) items
      (redirectAll g path role index items) := by
  induction items generalizing index with
  | nil => exact .nil
  | cons x xs ih => exact .cons ⟨_, rfl⟩ (ih (index + 1))

lemma redirectEntries_eq_map (es : Entries) (path : List String) :
    redirectEntries g path role es = es.map fun e =>
      (e.1, if role = .schema ∧ e.1.isText "$ref" = true then g (path ++ [e.1.text]) e.2
        else e.2.redirect g (path ++ [e.1.text]) (role.under e.1)) := by
  induction es with
  | nil => rfl
  | cons e es ih => rw [redirectEntries, ih, List.map_cons]

/-- A mapping of schemas has the same keys. -/
lemma forall₂_redirectEntries (es : Entries) (path : List String) :
    List.Forall₂ (fun e e' : Raw × Raw => e.1 = e'.1 ∧ ∃ path, e'.2 = e.2.redirect g path .schema)
      es (redirectEntries g path .schemaMap es) := by
  rw [redirectEntries_eq_map, List.forall₂_map_right_iff, List.forall₂_same]
  intro e _
  rw [if_neg (by simp), Role.under_schemaMap]
  exact ⟨rfl, _, rfl⟩

mutual

/-- Whether a value can be written does not depend on its references, if those can be written like
others. -/
lemma isWritable_redirect
    (hg : ∀ path raw, (g path raw).isWritable = raw.isWritable) :
    ∀ (raw : Raw) (path : List String) (role : Role),
    (raw.redirect g path role).isWritable = raw.isWritable
  | .list items, path, role => by
    rw [redirect, isWritable, isWritable, allWritable_redirectAll hg items path role.element 0]
  | .dict es, path, role => by
    rw [redirect, isWritable, isWritable, entriesWritable_redirectEntries hg es path role]
  | .null, _, _ | .bool _, _, _ | .int _, _, _ | .float _, _, _ | .str _, _, _ | .bytes _, _, _
  | .date _, _, _ | .dateTime _, _, _ | .set _, _, _ | .pair _ _, _, _ => rfl

lemma allWritable_redirectAll
    (hg : ∀ path raw, (g path raw).isWritable = raw.isWritable) :
    ∀ (items : List Raw) (path : List String) (role : Role) (index : Nat),
    allWritable (redirectAll g path role index items) = allWritable items
  | [], _, _, _ => rfl
  | x :: xs, path, role, index => by
    rw [redirectAll, allWritable, allWritable, isWritable_redirect hg x _ role,
      allWritable_redirectAll hg xs path role (index + 1)]

lemma entriesWritable_redirectEntries
    (hg : ∀ path raw, (g path raw).isWritable = raw.isWritable) :
    ∀ (es : List (Raw × Raw)) (path : List String) (role : Role),
    entriesWritable (redirectEntries g path role es) = entriesWritable es
  | [], _, _ => rfl
  | (key, value) :: es, path, role => by
    have hvalue : Raw.isWritable (if role = .schema ∧ key.isText "$ref" = true
        then g (path ++ [key.text]) value
        else value.redirect g (path ++ [key.text]) (role.under key)) = value.isWritable := by
      split
      · exact hg _ value
      · exact isWritable_redirect hg value _ _
    rw [redirectEntries, entriesWritable, entriesWritable, hvalue,
      entriesWritable_redirectEntries hg es path role]

end

end Raw

/-! ### Lookups -/

namespace Entries

variable {g : List String → Raw → Raw} {path : List String} {role : Role} {es : Entries}
  {name : String}

lemma field?_redirectEntries :
    field? (Raw.redirectEntries g path role es) name
      = (es.field? name).map fun value =>
        if role = .schema ∧ name = "$ref" then g (path ++ [name]) value
        else value.redirect g (path ++ [name]) (role.under (.str name)) := by
  induction es with
  | nil => rfl
  | cons e es ih =>
    obtain ⟨key, value⟩ := e
    by_cases hkey : key = .str name
    · subst hkey
      rw [Raw.redirectEntries, field?_cons_self, field?_cons_self, Option.map_some]
      simp only [Raw.isText_iff, Raw.str.injEq, Raw.text_str]
    · rw [Raw.redirectEntries, field?_cons_of_ne hkey, field?_cons_of_ne hkey, ih]

/-- The reference of a schema. -/
lemma field?_redirect_reference :
    field? (Raw.redirectEntries g path .schema es) "$ref"
      = (es.field? "$ref").map (g (path ++ ["$ref"])) := by
  rw [field?_redirectEntries]
  simp

/-- Under a keyword without a schema below it the value is the same. -/
lemma field?_redirect_inert (hname : name ≠ "$ref")
    (hinert : (role.under (.str name)).isInert = true) :
    field? (Raw.redirectEntries g path role es) name = es.field? name := by
  rw [field?_redirectEntries]
  simp only [hname, and_false, if_false, Raw.redirect_eq_self _ _ (.inl hinert), Option.map_id']

lemma field_redirectEntries (hname : name ≠ "$ref") :
    field (Raw.redirectEntries g path role es) name
      = (es.field name).redirect g (path ++ [name]) (role.under (.str name)) := by
  rw [field, field?_redirectEntries, field]
  simp only [hname, and_false, if_false]
  cases es.field? name <;> rfl

end Entries

/-! ### References -/

namespace Raw

mutual

/-- The references of the schemas in a value. -/
def references (role : Role) : Raw → List Raw
  | .list items => referencesAll role.element items
  | .dict es => referencesEntries role es
  | _ => []

def referencesAll (role : Role) : List Raw → List Raw
  | [] => []
  | x :: xs => x.references role ++ referencesAll role xs

def referencesEntries (role : Role) : List (Raw × Raw) → List Raw
  | [] => []
  | (key, value) :: es =>
    (if role = .schema ∧ key.isText "$ref" = true then [value]
      else value.references (role.under key)) ++ referencesEntries role es

end

lemma references_subset_of_mem_list {role : Role} {items : List Raw} {x : Raw} (h : x ∈ items) :
    x.references role ⊆ referencesAll role items := by
  induction items with
  | nil => cases h
  | cons first items ih =>
    rw [referencesAll]
    rcases List.mem_cons.mp h with rfl | h
    · exact List.subset_append_left _ _
    · exact List.subset_append_of_subset_right _ (ih h)

lemma references_subset_of_mem_entries {es : Entries} {e : Raw × Raw} (h : e ∈ es) :
    e.2.references .schema ⊆ referencesEntries .schemaMap es := by
  induction es with
  | nil => cases h
  | cons first es ih =>
    rw [referencesEntries, if_neg (by simp), Role.under_schemaMap]
    rcases List.mem_cons.mp h with rfl | h
    · exact List.subset_append_left _ _
    · exact List.subset_append_of_subset_right _ (ih h)

end Raw

namespace Entries

variable {es : Entries} {name : String} {value : Raw}

lemma references_subset_of_field? (hvalue : es.field? name = some value) :
    (if name = "$ref" then [value] else value.references (Role.under .schema (.str name)))
      ⊆ Raw.referencesEntries .schema es := by
  induction es with
  | nil => cases hvalue
  | cons e es ih =>
    obtain ⟨key, first⟩ := e
    rw [Raw.referencesEntries]
    by_cases hkey : key = .str name
    · subst hkey
      rw [field?_cons_self] at hvalue
      cases hvalue
      simp only [Raw.isText_iff, Raw.str.injEq, true_and]
      exact List.subset_append_left _ _
    · rw [field?_cons_of_ne hkey] at hvalue
      exact List.subset_append_of_subset_right _ (ih hvalue)

/-- The references below a keyword are references of the schema. -/
lemma references_field_subset (es : Entries) (name : String) (hname : name ≠ "$ref") :
    (es.field name).references (Role.under .schema (.str name))
      ⊆ Raw.referencesEntries .schema es := by
  cases hvalue : es.field? name with
  | none =>
    rw [field, hvalue]
    exact List.nil_subset _
  | some value =>
    have hsubset := references_subset_of_field? hvalue
    rw [if_neg hname] at hsubset
    rwa [field_of_field? hvalue]

end Entries

/-! ### Text-keyed values -/

namespace Raw

variable {g : List String → Raw → Raw}

mutual

/-- A text-keyed value is text-keyed after it is redirected, if the new references are. -/
lemma isTextKeyed_redirect (hg : ∀ path raw, raw.isTextKeyed = true → (g path raw).isTextKeyed = true) :
    ∀ (raw : Raw) (path : List String) (role : Role), raw.isTextKeyed = true →
    (raw.redirect g path role).isTextKeyed = true
  | .list items, path, role, h => by
    rw [isTextKeyed] at h
    rw [redirect, isTextKeyed]
    exact allTextKeyed_redirectAll hg items path role.element 0 h
  | .dict es, path, role, h => by
    rw [isTextKeyed] at h
    rw [redirect, isTextKeyed]
    exact entriesTextKeyed_redirectEntries hg es path role h
  | .null, _, _, h | .bool _, _, _, h | .int _, _, _, h | .float _, _, _, h | .str _, _, _, h
  | .bytes _, _, _, h | .date _, _, _, h | .dateTime _, _, _, h | .set _, _, _, h
  | .pair _ _, _, _, h => h

lemma allTextKeyed_redirectAll
    (hg : ∀ path raw, raw.isTextKeyed = true → (g path raw).isTextKeyed = true) :
    ∀ (items : List Raw) (path : List String) (role : Role) (index : Nat),
    allTextKeyed items = true → allTextKeyed (redirectAll g path role index items) = true
  | [], _, _, _, _ => rfl
  | x :: xs, path, role, index, h => by
    rw [allTextKeyed, Bool.and_eq_true] at h
    rw [redirectAll, allTextKeyed, Bool.and_eq_true]
    exact ⟨isTextKeyed_redirect hg x _ role h.1,
      allTextKeyed_redirectAll hg xs path role (index + 1) h.2⟩

lemma entriesTextKeyed_redirectEntries
    (hg : ∀ path raw, raw.isTextKeyed = true → (g path raw).isTextKeyed = true) :
    ∀ (es : List (Raw × Raw)) (path : List String) (role : Role), entriesTextKeyed es = true →
    entriesTextKeyed (redirectEntries g path role es) = true
  | [], _, _, _ => rfl
  | (key, value) :: es, path, role, h => by
    have hdict : (dict ((key, value) :: es)).isTextKeyed = true := by rwa [isTextKeyed]
    obtain ⟨⟨name, rfl, hnone⟩, hvalue, hrest⟩ := isTextKeyed_dict_cons hdict
    rw [isTextKeyed] at hrest
    rw [redirectEntries, entriesTextKeyed, Bool.and_eq_true, Bool.and_eq_true,
      Entries.field?_redirectEntries, hnone]
    refine ⟨⟨?_, rfl⟩, entriesTextKeyed_redirectEntries hg es path role hrest⟩
    split
    · exact hg _ _ hvalue
    · exact isTextKeyed_redirect hg value _ _ hvalue

end

@[simp] lemma isVoid_redirect (path : List String) (role : Role) (raw : Raw) :
    (raw.redirect g path role).isVoid = raw.isVoid := by
  cases raw with
  | list items => cases items <;> rfl
  | dict es => cases es <;> rfl
  | _ => rfl

end Raw

end ApiLint
