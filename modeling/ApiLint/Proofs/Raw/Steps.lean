import ApiLint.Proofs.Raw.Address
import ApiLint.Proofs.Raw.Parts

/-!
# Steps into a value

A step into a value takes the value of a key of a mapping or an element of a list. The segments of a
pointer tell a step by the text of the key or by the written index, and the null key by nothing. So
they address every value whose key has the text, and what steps lead to is among the values that the
segments address, unless the null key is on the way.
-/

namespace ApiLint

namespace Raw

/-- A step from a value to a part of it. -/
inductive Step
  | key (k : Raw)
  | index (i : Nat)

/-- How a pointer tells a step. -/
def Step.segments : Step → List String
  | .key .null => []
  | .key k => [k.text]
  | .index i => [writtenNat i]

/-- Steps that lead from a value down to a part of it. -/
inductive Descends : Raw → List Step → Raw → Prop
  | here (raw : Raw) : Descends raw [] raw
  | entry {es : Entries} {e : Raw × Raw} {target : Raw} {steps : List Step}
      (mem : e ∈ es) (rest : Descends e.2 steps target) :
      Descends (.dict es) (.key e.1 :: steps) target
  | item {items : List Raw} {index : Nat} {x target : Raw} {steps : List Step}
      (found : items[index]? = some x) (rest : Descends x steps target) :
      Descends (.list items) (.index index :: steps) target

/-- The parts of a value that a segment names: the values whose keys have it for text, or the
element at the index. -/
def partsUnder : Raw → String → List Raw
  | .dict es, segment => (es.filter fun e => e.1.text == segment).map (·.2)
  | .list items, segment => ((indexOf? segment).bind fun i => items[i]?).toList
  | _, _ => []

/-- The values that segments address. -/
def addressed (raw : Raw) : List String → List Raw
  | [] => [raw]
  | segment :: segments =>
    (raw.partsUnder segment).flatMap fun part => part.addressed segments

variable {raw target : Raw} {steps : List Step}

lemma Step.segments_key {k : Raw} (h : k ≠ .null) : (Step.key k).segments = [k.text] := by
  cases k with
  | null => exact absurd rfl h
  | _ => rfl

namespace Descends

/-- Without the null key on the way, the segments of the steps address what these lead to. -/
lemma mem_addressed (h : raw.Descends steps target) (hnull : .key .null ∉ steps) :
    target ∈ raw.addressed (steps.flatMap Step.segments) := by
  induction h with
  | here raw => exact List.mem_singleton_self raw
  | @entry es e target steps mem rest ih =>
    have hkey : e.1 ≠ .null := by
      intro heq
      exact hnull (heq ▸ List.mem_cons_self ..)
    rw [List.flatMap_cons, Step.segments_key hkey, List.singleton_append, addressed]
    refine List.mem_flatMap.mpr ⟨e.2, ?_, ih fun hmem => hnull (List.mem_cons_of_mem _ hmem)⟩
    exact List.mem_map_of_mem (List.mem_filter.mpr ⟨mem, beq_self_eq_true _⟩)
  | @item items index x target steps found rest ih =>
    rw [List.flatMap_cons, Step.segments, List.singleton_append, addressed, partsUnder,
      indexOf?_writtenNat, Option.bind_some, found]
    exact List.mem_flatMap.mpr ⟨x, List.mem_singleton_self x,
      ih fun hmem => hnull (List.mem_cons_of_mem _ hmem)⟩

/-- The keys on the way are parts of the value. -/
lemma mem_parts_of_key (h : raw.Descends steps target) {k : Raw} (hk : .key k ∈ steps) :
    k ∈ raw.parts := by
  induction h with
  | here raw => exact absurd hk List.not_mem_nil
  | entry mem _ ih =>
    obtain ⟨hkey, hvalue⟩ := parts_subset_of_mem_dict mem
    rcases List.mem_cons.mp hk with heq | hk
    · cases heq
      exact hkey (mem_parts_self _)
    · exact hvalue (ih hk)
  | item found _ ih =>
    rcases List.mem_cons.mp hk with heq | hk
    · cases heq
    · exact parts_subset_of_mem_list (List.mem_of_getElem? found) (ih hk)

/-- Steps into a text-keyed value are a route. -/
lemma route (h : raw.Descends steps target) (hraw : raw.isTextKeyed = true) :
    raw.Route (steps.flatMap Step.segments) target := by
  induction h with
  | here raw => exact .here raw
  | @entry es e target steps mem rest ih =>
    obtain ⟨⟨name, hname⟩, hvalue⟩ := isTextKeyed_of_mem_dict hraw mem
    have hfound : es.field? name = some e.2 := field?_of_mem hraw (hname ▸ mem)
    rw [List.flatMap_cons, hname]
    exact .field hfound (ih hvalue)
  | item found rest ih =>
    exact .item found (ih (isTextKeyed_of_mem_list hraw (List.mem_of_getElem? found)))

end Descends

end Raw

end ApiLint
