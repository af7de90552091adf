import ApiLint.Location
import ApiLint.Proofs.Document.Outline
import ApiLint.Proofs.Number.Decimal
import ApiLint.Proofs.Pointer

/-!
# Addresses in a document

The segments of a pointer lead from a raw value to a part of it: a segment is the key of a mapping
or the index of a list. Literals have parts in the same way. Read back from a pointer, the segments
are those that it was put together of, whatever characters they hold. A route is an address that
writes every index as the pointers of findings do.
-/

namespace ApiLint

/-! ### Segments of pointers -/

lemma Text.splitChars_append {separator : Char} {part : List Char} (h : separator ∉ part)
    (rest : List Char) :
    splitChars separator (part ++ rest)
      = (part ++ (splitChars separator rest).headD []) :: (splitChars separator rest).tail := by
  induction part with
  | nil =>
    cases hrest : splitChars separator rest with
    | nil => exact absurd hrest (splitChars_ne_nil separator rest)
    | cons first others => simp [hrest]
  | cons c part ih =>
    rw [List.mem_cons, not_or] at h
    rw [List.cons_append, splitChars, if_neg (Ne.symm h.1), ih h.2]
    rfl

/-- Splitting parts that are joined by separators gives the parts. -/
lemma Text.splitChars_flatMap {separator : Char} {parts : List (List Char)}
    (h : ∀ part ∈ parts, separator ∉ part) :
    splitChars separator (parts.flatMap fun part => separator :: part) = [] :: parts := by
  induction parts with
  | nil => rfl
  | cons part parts ih =>
    have hparts := ih fun other hother => h other (List.mem_cons_of_mem _ hother)
    rw [List.flatMap_cons, List.cons_append, splitChars, if_pos rfl,
      splitChars_append (h part (List.mem_cons_self ..)), hparts]
    simp

namespace Pointer

/-- The segments of a pointer: what stands between the slashes behind the `#`, with the escapes
undone. -/
def segments (p : Pointer) : List String := ((Text.split '/' p.place).tail).map unescape

lemma toList_foldl_push (base : Pointer) (xs : List String) :
    (xs.foldl push base).toList
      = base.toList ++ (xs.map fun x => escapeChars x.toList).flatMap fun part => '/' :: part := by
  induction xs generalizing base with
  | nil => simp
  | cons x xs ih => simp [ih, push, escape]

/-- The segments of a pointer are those that it was put together of. -/
@[simp] lemma segments_root_join (xs : List String) : segments (root.join xs) = xs := by
  have hchars : (root.join xs).toList
      = '#' :: (xs.map fun x => escapeChars x.toList).flatMap fun part => '/' :: part := by
    rw [join, toList_foldl_push]
    rfl
  have hplace : (root.join xs).place = String.ofList
      ((xs.map fun x => escapeChars x.toList).flatMap fun part => '/' :: part) := by
    rw [place, hchars]
    rfl
  have hparts : ∀ part ∈ xs.map fun x => escapeChars x.toList, '/' ∉ part := by
    intro part hpart
    obtain ⟨x, _, rfl⟩ := List.mem_map.mp hpart
    exact slash_notMem_escapeChars _
  rw [segments, hplace, Text.split, String.toList_ofList, Text.splitChars_flatMap hparts,
    List.map_cons, List.tail_cons, List.map_map, List.map_map]
  refine (List.map_congr_left fun x _ => ?_).trans (List.map_id xs)
  exact unescape_escape x

end Pointer

/-! ### Parts of values -/

/-- The index that a segment of decimal digits names. -/
def indexOf? (segment : String) : Option Nat :=
  if segment.toList ≠ [] ∧ segment.toList.all Char.isDigit then
    some (Nat.ofDigitChars 10 segment.toList 0)
  else none

@[simp] lemma indexOf?_writtenNat (i : Nat) : indexOf? (writtenNat i) = some i := by
  have hdigits : (Nat.toDigits 10 i).all Char.isDigit = true := by
    rw [List.all_eq_true]
    intro c hc
    exact Nat.isDigit_of_mem_toDigits (by decide) (by decide) hc
  rw [indexOf?, toList_writtenNat, if_pos ⟨Nat.toDigits_ne_nil, hdigits⟩,
    Nat.ofDigitChars_ten_toDigits]

/-- Segments that lead on through a mapping only: the first of them is no index. -/
def BeginWithWord (segments : List String) : Prop :=
  ∃ word rest, segments = word :: rest ∧ indexOf? word = none

lemma BeginWithWord.append {segments : List String} (h : BeginWithWord segments)
    (more : List String) : BeginWithWord (segments ++ more) := by
  obtain ⟨word, rest, rfl, hindex⟩ := h
  exact ⟨word, rest ++ more, rfl, hindex⟩

namespace Raw

/-- The part of a value under a segment. -/
def part? : Raw → String → Option Raw
  | .dict es, segment => Entries.field? es segment
  | .list items, segment => (indexOf? segment).bind fun i => items[i]?
  | _, _ => none

/-- The value at the end of segments. -/
def at? (raw : Raw) : List String → Option Raw
  | [] => some raw
  | segment :: segments => (raw.part? segment).bind fun part => part.at? segments

@[simp] lemma at?_nil (raw : Raw) : raw.at? [] = some raw := rfl

lemma at?_cons (raw : Raw) (segment : String) (segments : List String) :
    raw.at? (segment :: segments) = (raw.part? segment).bind fun part => part.at? segments := rfl

lemma at?_append (raw : Raw) (xs ys : List String) :
    raw.at? (xs ++ ys) = (raw.at? xs).bind fun part => part.at? ys := by
  induction xs generalizing raw with
  | nil => rfl
  | cons x xs ih => simp only [List.cons_append, at?_cons, ih, Option.bind_assoc]

lemma at?_singleton (raw : Raw) (segment : String) : raw.at? [segment] = raw.part? segment := by
  rw [at?_cons]
  exact Option.bind_fun_some _

/-- A list has no part under a word. -/
lemma at?_list_of_indexOf?_eq_none {items : List Raw} {segment : String}
    (h : indexOf? segment = none) (segments : List String) :
    (Raw.list items).at? (segment :: segments) = none := by
  rw [at?_cons, part?, h]
  rfl

/-! ### Routes -/

/-- A route leads from a value to a part of it. It names an index by its written form only, while an
address may also have zeros in front of it. -/
inductive Route : Raw → List String → Raw → Prop
  | here (raw : Raw) : Route raw [] raw
  | field {es : Entries} {name : String} {value target : Raw} {segments : List String}
      (found : es.field? name = some value) (rest : Route value segments target) :
      Route (.dict es) (name :: segments) target
  | item {items : List Raw} {index : Nat} {x target : Raw} {segments : List String}
      (found : items[index]? = some x) (rest : Route x segments target) :
      Route (.list items) (writtenNat index :: segments) target

namespace Route

/-- A route is an address. -/
lemma at?_eq {raw target : Raw} {segments : List String} (h : Route raw segments target) :
    raw.at? segments = some target := by
  induction h with
  | here raw => rfl
  | field found _ ih => rw [at?_cons, part?, found, Option.bind_some, ih]
  | item found _ ih =>
    rw [at?_cons, part?, indexOf?_writtenNat, Option.bind_some, found, Option.bind_some, ih]

lemma append {raw middle target : Raw} {xs ys : List String} (h : Route raw xs middle)
    (h' : Route middle ys target) : Route raw (xs ++ ys) target := by
  induction h with
  | here raw => exact h'
  | field found _ ih => exact .field found (ih h')
  | item found _ ih => exact .item found (ih h')

lemma ofField {es : Entries} {name : String} {value : Raw} (h : es.field? name = some value) :
    Route (.dict es) [name] value :=
  .field h (.here value)

lemma ofItem {items : List Raw} {index : Nat} {x : Raw} (h : items[index]? = some x) :
    Route (.list items) [writtenNat index] x :=
  .item h (.here x)

end Route

end Raw

namespace Literal

/-- The part of a literal under a segment. -/
def part? : Literal → String → Option Literal
  | .array items, segment => (indexOf? segment).bind fun i => items[i]?
  | .object members, segment => Fields.find? members segment
  | _, _ => none

/-- The literal at the end of segments. -/
def at? (value : Literal) : List String → Option Literal
  | [] => some value
  | segment :: segments => (value.part? segment).bind fun part => part.at? segments

@[simp] lemma at?_nil (value : Literal) : value.at? [] = some value := rfl

lemma at?_cons (value : Literal) (segment : String) (segments : List String) :
    value.at? (segment :: segments)
      = (value.part? segment).bind fun part => part.at? segments := rfl

end Literal

end ApiLint
