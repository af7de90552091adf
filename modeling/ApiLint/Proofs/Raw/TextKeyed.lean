import Mathlib.Data.List.Nodup
import ApiLint.Raw.Text

/-!
# Text-keyed values

A raw value is text-keyed if it is made of scalars, lists and mappings whose keys are texts, each
standing once in its mapping. In such a mapping an entry is found by its name and by nothing else.
-/

namespace ApiLint

namespace Raw

mutual

/-- Whether the value is made of scalars, lists and mappings with distinct text keys. -/
def isTextKeyed : Raw → Bool
  | .list items => allTextKeyed items
  | .dict es => entriesTextKeyed es
  | .pair .. | .set _ => false
  | _ => true

def allTextKeyed : List Raw → Bool
  | [] => true
  | x :: xs => x.isTextKeyed && allTextKeyed xs

def entriesTextKeyed : List (Raw × Raw) → Bool
  | [] => true
  | (.str name, value) :: es =>
    value.isTextKeyed && (Entries.field? es name).isNone && entriesTextKeyed es
  | _ :: _ => false

end

lemma sameKey_str_iff {key : Raw} {name : String} :
    key.sameKey (.str name) = true ↔ key = .str name := by
  cases key <;> simp [sameKey]

end Raw

namespace Entries

@[simp] lemma field?_nil (name : String) : field? [] name = none := rfl

@[simp] lemma field?_cons_self (name : String) (value : Raw) (es : Entries) :
    field? ((.str name, value) :: es) name = some value := by
  simp [field?, find?]

lemma field?_cons_of_ne {key : Raw} {name : String} (h : key ≠ .str name) (value : Raw)
    (es : Entries) : field? ((key, value) :: es) name = field? es name := by
  have hkey : key.sameKey (.str name) = false := by
    rw [← Bool.not_eq_true, Raw.sameKey_str_iff]
    exact h
  simp [field?, find?, hkey]

lemma mem_of_field? {es : Entries} {name : String} {value : Raw} (h : es.field? name = some value) :
    (.str name, value) ∈ es := by
  induction es with
  | nil => cases h
  | cons e es ih =>
    obtain ⟨key, v⟩ := e
    by_cases hkey : key = .str name
    · subst hkey
      rw [field?_cons_self] at h
      cases h
      exact List.mem_cons_self ..
    · rw [field?_cons_of_ne hkey] at h
      exact List.mem_cons_of_mem _ (ih h)

lemma field_of_field? {es : Entries} {name : String} {value : Raw}
    (h : es.field? name = some value) : es.field name = value := by
  rw [field, h, Option.getD_some]

lemma sizeOf_lt_of_mem {es : Entries} {key value : Raw} (h : (key, value) ∈ es) :
    sizeOf value < sizeOf es := by
  have := List.sizeOf_lt_of_mem h
  simp only [Prod.mk.sizeOf_spec] at this
  omega

lemma sizeOf_lt_dict {es : Entries} {e : Raw × Raw} (h : e ∈ es) :
    sizeOf e.2 < sizeOf (Raw.dict es) := by
  have := sizeOf_lt_of_mem (show (e.1, e.2) ∈ es from h)
  rw [Raw.dict.sizeOf_spec]
  omega

/-- A field of a mapping is smaller than the mapping, unless it is absent. -/
lemma sizeOf_field_lt {es : Entries} {name : String} (h : es.field name ≠ .null) :
    sizeOf (es.field name) < sizeOf es := by
  cases hf : es.field? name with
  | none => simp [field, hf] at h
  | some value =>
    rw [field_of_field? hf]
    exact sizeOf_lt_of_mem (mem_of_field? hf)

end Entries

namespace Raw

lemma sizeOf_lt_list {items : List Raw} {x : Raw} (h : x ∈ items) :
    sizeOf x < sizeOf (list items) := by
  have := List.sizeOf_lt_of_mem h
  rw [list.sizeOf_spec]
  omega

lemma isTextKeyed_of_mem_list {items : List Raw} (h : (list items).isTextKeyed = true) {x : Raw}
    (hx : x ∈ items) : x.isTextKeyed = true := by
  simp only [isTextKeyed] at h
  induction items with
  | nil => cases hx
  | cons y ys ih =>
    simp only [allTextKeyed, Bool.and_eq_true] at h
    rcases List.mem_cons.mp hx with rfl | hx
    · exact h.1
    · exact ih h.2 hx

/-- The first entry of a text-keyed mapping and the rest of it. -/
lemma isTextKeyed_dict_cons {e : Raw × Raw} {es : Entries}
    (h : (dict (e :: es)).isTextKeyed = true) :
    (∃ name, e.1 = .str name ∧ Entries.field? es name = none) ∧ e.2.isTextKeyed = true
      ∧ (dict es).isTextKeyed = true := by
  obtain ⟨key, value⟩ := e
  simp only [isTextKeyed] at h ⊢
  unfold entriesTextKeyed at h
  split at h
  · next heq => cases heq
  · next name _ _ heq =>
    cases heq
    simp only [Bool.and_eq_true, Option.isNone_iff_eq_none] at h
    exact ⟨⟨name, rfl, h.1.2⟩, h.1.1, h.2⟩
  · cases h

lemma isTextKeyed_of_mem_dict {es : Entries} (h : (dict es).isTextKeyed = true) {e : Raw × Raw}
    (he : e ∈ es) : (∃ name, e.1 = .str name) ∧ e.2.isTextKeyed = true := by
  induction es with
  | nil => cases he
  | cons f es ih =>
    obtain ⟨⟨name, hname, _⟩, hvalue, hrest⟩ := isTextKeyed_dict_cons h
    rcases List.mem_cons.mp he with rfl | he
    · exact ⟨⟨name, hname⟩, hvalue⟩
    · exact ih hrest he

lemma isTextKeyed_field? {es : Entries} (h : (dict es).isTextKeyed = true) {name : String}
    {value : Raw} (hf : es.field? name = some value) : value.isTextKeyed = true :=
  (isTextKeyed_of_mem_dict h (Entries.mem_of_field? hf)).2

lemma isTextKeyed_field {es : Entries} (h : (dict es).isTextKeyed = true) (name : String) :
    (es.field name).isTextKeyed = true := by
  cases hf : es.field? name with
  | none => simp [Entries.field, hf, isTextKeyed]
  | some value =>
    rw [Entries.field_of_field? hf]
    exact isTextKeyed_field? h hf

/-- An entry of a text-keyed mapping is found by its name. -/
lemma field?_of_mem {es : Entries} (h : (dict es).isTextKeyed = true) {name : String} {value : Raw}
    (he : (.str name, value) ∈ es) : es.field? name = some value := by
  induction es with
  | nil => cases he
  | cons f es ih =>
    obtain ⟨⟨first, hfirst, hnone⟩, _, hrest⟩ := isTextKeyed_dict_cons h
    obtain ⟨key, v⟩ := f
    cases hfirst
    rcases List.mem_cons.mp he with heq | he
    · cases heq
      exact Entries.field?_cons_self ..
    · have hne : first ≠ name := by
        rintro rfl
        rw [ih hrest he] at hnone
        cases hnone
      rw [Entries.field?_cons_of_ne (by simpa using hne), ih hrest he]

lemma field?_text_of_mem {es : Entries} (h : (dict es).isTextKeyed = true) {e : Raw × Raw}
    (he : e ∈ es) : es.field? e.1.text = some e.2 := by
  obtain ⟨name, hname⟩ := (isTextKeyed_of_mem_dict h he).1
  refine field?_of_mem h ?_
  rw [hname, text_str, ← hname]
  exact he

/-- The names in a text-keyed mapping are distinct. -/
lemma nodup_names {es : Entries} (h : (dict es).isTextKeyed = true) :
    (es.map fun e => e.1.text).Nodup := by
  induction es with
  | nil => exact List.nodup_nil
  | cons f es ih =>
    obtain ⟨⟨first, hfirst, hnone⟩, _, hrest⟩ := isTextKeyed_dict_cons h
    rw [List.map_cons, List.nodup_cons]
    refine ⟨?_, ih hrest⟩
    intro hmem
    obtain ⟨e, he, htext⟩ := List.mem_map.mp hmem
    have hfound := field?_text_of_mem hrest he
    rw [htext, hfirst, text_str] at hfound
    rw [hfound] at hnone
    cases hnone

end Raw

end ApiLint
