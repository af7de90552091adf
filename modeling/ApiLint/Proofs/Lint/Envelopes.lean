import ApiLint.Proofs.Lint.Rekeying
import ApiLint.Proofs.Pointer
import ApiLint.Proofs.Raw.Redirecting

/-!
# Schemas in other places

The examination of an envelope names each issue by its path and asks of a reference only that it is
a text. So schemas have the same issues wherever they stand in a document and whatever their
references are put in the place of, at the same places below them and in the same order.
-/

namespace ApiLint

/-! ### Sorting in step -/

/-- Two lists in step stay so when they are sorted, if the orders agree on related elements. -/
lemma forall₂_mergeSort {α β : Type} {R : α → β → Prop} {le : α → α → Bool} {le' : β → β → Bool}
    {as : List α} {bs : List β} (h : List.Forall₂ R as bs)
    (hle : ∀ a b c d, R a b → R c d → le a c = le' b d) :
    List.Forall₂ R (as.mergeSort le) (bs.mergeSort le') := by
  have hzip : ∀ p ∈ as.zip bs, R p.1 p.2 := by
    rintro ⟨a, b⟩ hp
    exact List.forall₂_zip h hp
  have hfst : (as.zip bs).map Prod.fst = as := List.map_fst_zip h.length_eq.le
  have hsnd : (as.zip bs).map Prod.snd = bs := List.map_snd_zip h.length_eq.ge
  -- both sorted lists are projections of the list of pairs, sorted by the first components
  have hleft : ((as.zip bs).mergeSort fun p q => le p.1 q.1).map Prod.fst = as.mergeSort le := by
    rw [List.map_mergeSort (s := le) fun _ _ _ _ => rfl, hfst]
  have hright : ((as.zip bs).mergeSort fun p q => le p.1 q.1).map Prod.snd = bs.mergeSort le' := by
    rw [List.map_mergeSort fun p hp q hq => hle _ _ _ _ (hzip p hp) (hzip q hq), hsnd]
  rw [← hleft, ← hright, List.forall₂_map_left_iff, List.forall₂_map_right_iff, List.forall₂_same]
  exact fun p hp => hzip p ((List.mergeSort_perm _ _).mem_iff.mp hp)

namespace EnvelopeIssue

/-- Issues at the same place below two paths. -/
def Moved (path path' : List String) (i i' : EnvelopeIssue) : Prop :=
  ∃ rest, i.path = path ++ rest ∧ i'.path = path' ++ rest

variable {path path' more : List String} {i i' j j' : EnvelopeIssue}

lemma Moved.self {message message' : String} : Moved path path' ⟨path, message⟩ ⟨path', message'⟩ :=
  ⟨[], by simp, by simp⟩

lemma Moved.of_below (h : Moved (path ++ more) (path' ++ more) i i') : Moved path path' i i' := by
  obtain ⟨rest, hi, hi'⟩ := h
  exact ⟨more ++ rest, by rw [hi, List.append_assoc], by rw [hi', List.append_assoc]⟩

lemma lex_append (path xs ys : List String) : (path ++ xs).lex (path ++ ys) = xs.lex ys := by
  induction path with
  | nil => rfl
  | cons segment path ih =>
    rw [List.cons_append, List.cons_append, List.cons_lex_cons, ih]
    simp only [String.lt_irrefl, decide_false, beq_self_eq_true, Bool.true_and, Bool.false_or]

/-- The order of issues does not depend on what is above them all. -/
lemma Moved.le_eq (h : Moved path path' i i') (h' : Moved path path' j j') : le i j = le i' j' := by
  obtain ⟨rest, hi, hi'⟩ := h
  obtain ⟨rest', hj, hj'⟩ := h'
  rw [le, le, hi, hi', hj, hj', lex_append, lex_append]

end EnvelopeIssue

namespace Envelope

open EnvelopeIssue

variable {g : List String → Raw → Raw} {path path' more : List String}

/-- Values with the same issues below two paths. -/
abbrev SameIssues (path path' : List String) (is is' : List EnvelopeIssue) : Prop :=
  List.Forall₂ (Moved path path') is is'

lemma SameIssues.of_below {is is' : List EnvelopeIssue}
    (h : SameIssues (path ++ more) (path' ++ more) is is') : SameIssues path path' is is' :=
  h.imp fun _ _ => Moved.of_below

lemma SameIssues.isEmpty_eq {is is' : List EnvelopeIssue} (h : SameIssues path path' is is') :
    is'.isEmpty = is.isEmpty := by
  cases h <;> rfl

/-! ### Values without schemas -/

lemma sameIssues_ite {c : Prop} [Decidable c] {message message' : String} :
    SameIssues path path' (if c then [] else [⟨path, message⟩])
      (if c then [] else [⟨path', message'⟩]) := by
  split
  · exact .nil
  · exact .cons .self .nil

lemma sameIssues_ofType {types : List ValueType} {value value' : Raw}
    (h : ∀ type : ValueType, type.holds value' = type.holds value) :
    SameIssues path path' (ofType types path value) (ofType types path' value') := by
  rw [ofType, ofType]
  simp only [h]
  exact sameIssues_ite

lemma sameIssues_typeIssues (value : Raw) :
    SameIssues path path' (typeIssues path value) (typeIssues path' value) :=
  List.rel_append (sameIssues_ofType fun _ => rfl) sameIssues_ite

lemma sameIssues_requiredIssues (value : Raw) :
    SameIssues path path' (requiredIssues path value) (requiredIssues path' value) := by
  cases value with
  | list items =>
    have helements : ∀ index, SameIssues path path'
        (elementIssues (ofType [.string]) path index items)
        (elementIssues (ofType [.string]) path' index items) := by
      induction items with
      | nil => exact fun _ => .nil
      | cons item items ih =>
        intro index
        rw [elementIssues, elementIssues]
        exact List.rel_append (SameIssues.of_below (sameIssues_ofType fun _ => rfl))
          (ih (index + 1))
    exact helements 0
  | _ => exact .cons .self .nil

lemma sameIssues_discriminatorIssues (value : Raw) :
    SameIssues path path' (discriminatorIssues path value) (discriminatorIssues path' value) := by
  rw [discriminatorIssues, discriminatorIssues]
  exact sameIssues_ite

/-! ### Schemas -/

/-- The value of a keyword has the same issues as another value of its types, if so it is as far as
the keyword asks for schemas. -/
lemma sameIssues_keyword (keyword : Keyword) {value value' : Raw}
    (hholds : ∀ type : ValueType, type.holds value' = type.holds value)
    (hplain : keyword.role? = some .plain → value' = value)
    (hschema : keyword.role? = some .schema →
      SameIssues path path' (schemaIssues path value) (schemaIssues path' value'))
    (hmap : keyword.role? = some .schemaMap →
      SameIssues path path' (schemaMapIssues path value) (schemaMapIssues path' value'))
    (hlist : keyword.role? = some .schemaList →
      SameIssues path path' (schemaListIssues path value) (schemaListIssues path' value')) :
    SameIssues path path' (keyword.issues path value) (keyword.issues path' value') := by
  cases keyword with
  | plain types => exact sameIssues_ofType hholds
  | type =>
    rw [hplain rfl]
    exact sameIssues_typeIssues value
  | required =>
    rw [hplain rfl]
    exact sameIssues_requiredIssues value
  | discriminator =>
    rw [hplain rfl]
    exact sameIssues_discriminatorIssues value
  | schema => exact hschema rfl
  | schemaOrBoolean =>
    rw [Keyword.issues, Keyword.issues, hholds, (hschema rfl).isEmpty_eq]
    exact sameIssues_ite
  | schemaMap => exact hmap rfl
  | schemaList => exact hlist rfl

@[simp] lemma holds_redirect (type : ValueType) (path : List String) (role : Role) (raw : Raw) :
    type.holds (raw.redirect g path role) = type.holds raw := by
  cases type <;> cases raw <;> rfl

/-- Of the keyword of references no more is asked than its type. -/
lemma redirect_of_role? {key value : Raw} {name : String} {keyword : Keyword} {role : Role}
    (h : keyword? key = some (name, keyword)) (hrole : keyword.role? = some role)
    (place : List String) :
    (if Role.schema = .schema ∧ key.isText "$ref" = true then g place value
      else value.redirect g place (Role.under .schema key)) = value.redirect g place role := by
  have hplain : ¬(Role.schema = .schema ∧ key.isText "$ref" = true) := by
    rintro ⟨-, htext⟩
    rw [Raw.isText_iff.mp htext] at h
    cases h
    cases hrole
  rw [if_neg hplain, under_of_keyword? h hrole]

section Redirecting

variable (hg : ∀ place raw, SameSort raw (g place raw))
include hg

/-- A value is of the same sort after it is redirected, if references are. -/
lemma sameSort_redirect (raw : Raw) (place : List String) (role : Role) :
    SameSort raw (raw.redirect g place role) :=
  ⟨fun type => holds_redirect type place role raw,
    Raw.isWritable_redirect (fun place raw => (hg place raw).writable) raw place role⟩

lemma sameSort_redirectValue (key value : Raw) (place : List String) (role : Role) :
    SameSort value (if role = .schema ∧ key.isText "$ref" = true then g place value
      else value.redirect g place (role.under key)) := by
  split
  · exact hg place value
  · exact sameSort_redirect hg value place _

/-- Redirecting changes nothing that an examination asks for. -/
lemma isLikeness_redirect :
    IsLikeness fun role raw raw' => ∃ place, raw' = raw.redirect g place role where
  sort := by
    rintro role raw _ ⟨place, rfl⟩
    exact sameSort_redirect hg raw place role
  plain := by
    rintro raw _ ⟨place, rfl⟩
    exact Raw.redirect_eq_self _ _ (.inl rfl)
  schema := by
    rintro es es' ⟨place, hes⟩
    rw [Raw.redirect, Raw.redirectEntries_eq_map] at hes
    cases hes
    rw [List.forall₂_map_right_iff, List.forall₂_same]
    intro e _
    refine ⟨rfl, sameSort_redirectValue hg e.1 e.2 _ .schema, ?_⟩
    intro name keyword role hkeyword hrole
    exact ⟨_, redirect_of_role? hkeyword hrole _⟩
  schemaMap := by
    rintro es es' ⟨place, hes⟩
    rw [Raw.redirect] at hes
    cases hes
    refine (Raw.forall₂_redirectEntries es place).imp ?_
    rintro e e' ⟨hkey, hvalue⟩
    exact ⟨by rw [hkey], hvalue⟩
  schemaList := by
    rintro items items' ⟨place, hitems⟩
    rw [Raw.redirect] at hitems
    cases hitems
    exact Raw.forall₂_redirectAll items place 0

end Redirecting

mutual

/-- A schema has the same issues at another path, and with other references. -/
lemma sameIssues_schemaIssues (hg : ∀ place raw, SameSort raw (g place raw)) :
    ∀ (raw : Raw) (path path' place : List String),
    SameIssues path path' (schemaIssues path raw)
      (schemaIssues path' (raw.redirect g place .schema))
  | .dict es, path, path', place => by
    rw [Raw.redirect, schemaIssues, schemaIssues]
    exact sameIssues_keywordsIssues hg es path path' place
  | .null, _, _, _ | .bool _, _, _, _ | .int _, _, _, _ | .float _, _, _, _ | .str _, _, _, _
  | .bytes _, _, _, _ | .date _, _, _, _ | .dateTime _, _, _, _ | .set _, _, _, _
  | .pair _ _, _, _, _ | .list _, _, _, _ => by
    simp only [Raw.redirect, schemaIssues]
    exact .cons .self .nil

lemma sameIssues_keywordsIssues (hg : ∀ place raw, SameSort raw (g place raw)) :
    ∀ (es : List (Raw × Raw)) (path path' place : List String),
    SameIssues path path' (keywordsIssues path es)
      (keywordsIssues path' (Raw.redirectEntries g place .schema es))
  | [], _, _, _ => .nil
  | (key, value) :: es, path, path', place => by
    rw [Raw.redirectEntries, keywordsIssues_cons, keywordsIssues_cons]
    refine List.rel_append ?_ (sameIssues_keywordsIssues hg es path path' place)
    cases hkeyword : keyword? key with
    | none => exact .nil
    | some found =>
      obtain ⟨name, keyword⟩ := found
      refine SameIssues.of_below (sameIssues_keyword keyword ?_ ?_ ?_ ?_ ?_)
      · exact (sameSort_redirectValue hg key value _ .schema).holds
      · intro hrole
        rw [redirect_of_role? hkeyword hrole, Raw.redirect_eq_self _ _ (.inl rfl)]
      · intro hrole
        rw [redirect_of_role? hkeyword hrole]
        exact sameIssues_schemaIssues hg value _ _ _
      · intro hrole
        rw [redirect_of_role? hkeyword hrole]
        exact sameIssues_schemaMapIssues hg value _ _ _
      · intro hrole
        rw [redirect_of_role? hkeyword hrole]
        exact sameIssues_schemaListIssues hg value _ _ _

lemma sameIssues_schemaMapIssues (hg : ∀ place raw, SameSort raw (g place raw)) :
    ∀ (raw : Raw) (path path' place : List String),
    SameIssues path path' (schemaMapIssues path raw)
      (schemaMapIssues path' (raw.redirect g place .schemaMap))
  | .dict es, path, path', place => by
    rw [Raw.redirect, schemaMapIssues, schemaMapIssues]
    exact sameIssues_namedSchemasIssues hg es path path' place
  | .null, _, _, _ | .bool _, _, _, _ | .int _, _, _, _ | .float _, _, _, _ | .str _, _, _, _
  | .bytes _, _, _, _ | .date _, _, _, _ | .dateTime _, _, _, _ | .set _, _, _, _
  | .pair _ _, _, _, _ | .list _, _, _, _ => by
    simp only [Raw.redirect, schemaMapIssues]
    exact .cons .self .nil

lemma sameIssues_namedSchemasIssues (hg : ∀ place raw, SameSort raw (g place raw)) :
    ∀ (es : List (Raw × Raw)) (path path' place : List String),
    SameIssues path path' (namedSchemasIssues path es)
      (namedSchemasIssues path' (Raw.redirectEntries g place .schemaMap es))
  | [], _, _, _ => .nil
  | (key, value) :: es, path, path', place => by
    rw [Raw.redirectEntries, namedSchemasIssues, namedSchemasIssues, if_neg (by simp),
      Role.under_schemaMap]
    refine List.rel_append ?_ (sameIssues_namedSchemasIssues hg es path path' place)
    obtain ⟨more, hmore⟩ : ∃ more, ∀ path, underKey path key = path ++ more := by
      cases key with
      | null => exact ⟨[], fun path => (List.append_nil path).symm⟩
      | _ => exact ⟨_, fun _ => rfl⟩
    rw [hmore, hmore]
    exact SameIssues.of_below (sameIssues_schemaIssues hg value _ _ _)

lemma sameIssues_schemaListIssues (hg : ∀ place raw, SameSort raw (g place raw)) :
    ∀ (raw : Raw) (path path' place : List String),
    SameIssues path path' (schemaListIssues path raw)
      (schemaListIssues path' (raw.redirect g place .schemaList))
  | .list items, path, path', place => by
    rw [Raw.redirect, schemaListIssues, schemaListIssues]
    exact sameIssues_schemasIssues hg items path path' place 0
  | .null, _, _, _ | .bool _, _, _, _ | .int _, _, _, _ | .float _, _, _, _ | .str _, _, _, _
  | .bytes _, _, _, _ | .date _, _, _, _ | .dateTime _, _, _, _ | .set _, _, _, _
  | .pair _ _, _, _, _ | .dict _, _, _, _ => by
    simp only [Raw.redirect, schemaListIssues]
    exact .cons .self .nil

lemma sameIssues_schemasIssues (hg : ∀ place raw, SameSort raw (g place raw)) :
    ∀ (items : List Raw) (path path' place : List String) (index : Nat),
    SameIssues path path' (schemasIssues path index items)
      (schemasIssues path' index (Raw.redirectAll g place .schema index items))
  | [], _, _, _, _ => .nil
  | x :: xs, path, path', place, index => by
    rw [Raw.redirectAll, schemasIssues, schemasIssues]
    refine List.rel_append ?_ (sameIssues_schemasIssues hg xs path path' place (index + 1))
    exact SameIssues.of_below (sameIssues_schemaIssues hg x _ _ _)

end

end Envelope

end ApiLint
