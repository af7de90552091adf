import ApiLint.Proofs.Raw.Address

/-!
# The parts of a raw value

The parts of a value are the value itself and the parts of all that it holds: the elements of its
lists and sets, and the keys and the values of its mappings. What is said of all parts of a document
is passed on to whatever is found in the document.
-/

namespace ApiLint

namespace Raw

mutual

/-- The value and all values in it, at whatever depth. -/
def parts : Raw → List Raw
  | .list items => .list items :: partsOfAll items
  | .set items => .set items :: partsOfAll items
  | .pair k v => .pair k v :: (k.parts ++ v.parts)
  | .dict es => .dict es :: partsOfEntries es
  | raw => [raw]

def partsOfAll : List Raw → List Raw
  | [] => []
  | x :: xs => x.parts ++ partsOfAll xs

def partsOfEntries : List (Raw × Raw) → List Raw
  | [] => []
  | (k, v) :: es => k.parts ++ v.parts ++ partsOfEntries es

end

lemma mem_parts_self (raw : Raw) : raw ∈ raw.parts := by
  cases raw <;> simp [parts]

lemma parts_subset_of_mem_list {items : List Raw} {x : Raw} (h : x ∈ items) :
    x.parts ⊆ (list items).parts := by
  have hall : x.parts ⊆ partsOfAll items := by
    induction items with
    | nil => cases h
    | cons first items ih =>
      rw [partsOfAll]
      rcases List.mem_cons.mp h with rfl | h
      · exact List.subset_append_left ..
      · exact List.Subset.trans (ih h) (List.subset_append_right ..)
  intro part hpart
  rw [parts]
  exact List.mem_cons_of_mem _ (hall hpart)

lemma parts_subset_of_mem_dict {es : Entries} {e : Raw × Raw} (h : e ∈ es) :
    e.1.parts ⊆ (dict es).parts ∧ e.2.parts ⊆ (dict es).parts := by
  have hall : e.1.parts ++ e.2.parts ⊆ partsOfEntries es := by
    induction es with
    | nil => cases h
    | cons first es ih =>
      obtain ⟨key, value⟩ := first
      rw [partsOfEntries]
      rcases List.mem_cons.mp h with rfl | h
      · exact List.subset_append_left ..
      · exact List.Subset.trans (ih h) (List.subset_append_right ..)
  obtain ⟨hkey, hvalue⟩ := List.append_subset.mp hall
  have hcons : partsOfEntries es ⊆ (dict es).parts := by
    intro part hpart
    rw [parts]
    exact List.mem_cons_of_mem _ hpart
  exact ⟨List.Subset.trans hkey hcons, List.Subset.trans hvalue hcons⟩

lemma parts_subset_of_field? {es : Entries} {name : String} {value : Raw}
    (h : es.field? name = some value) : value.parts ⊆ (dict es).parts :=
  (parts_subset_of_mem_dict (Entries.mem_of_field? h)).2

/-- What stands under a name is a part, or null because there is nothing. -/
lemma parts_subset_of_field {es : Entries} {name : String} (h : es.field name ≠ .null) :
    (es.field name).parts ⊆ (dict es).parts := by
  cases hfield : es.field? name with
  | none => simp [Entries.field, hfield] at h
  | some value =>
    rw [Entries.field_of_field? hfield]
    exact parts_subset_of_field? hfield

/-- What stands at the end of a route is a part. -/
lemma Route.parts_subset {raw target : Raw} {segments : List String}
    (h : raw.Route segments target) : target.parts ⊆ raw.parts := by
  induction h with
  | here raw => exact List.Subset.refl _
  | field found _ ih => exact List.Subset.trans ih (parts_subset_of_field? found)
  | item found _ ih =>
    exact List.Subset.trans ih (parts_subset_of_mem_list (List.mem_of_getElem? found))

end Raw

end ApiLint
