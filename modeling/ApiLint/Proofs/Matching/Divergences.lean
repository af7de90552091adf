import ApiLint.Proofs.Matching.Departures
import ApiLint.Proofs.Matching.Faults
import ApiLint.Proofs.Raw.Places
import ApiLint.Proofs.Rule.Total

/-!
# Where a literal diverges from its schema

A schema governs the parts of a literal as long as the literals above them have the types that their
own schemas ask for. A part diverges from the schema that governs it if it has another type or, as a
scalar, another format. In a well-formed graph the matcher finds exactly the parts that diverge, in
the order of the literal. Nothing is governed below such a part, so no place that is reported lies
below another one.
-/

namespace ApiLint

namespace Literal

/-- Whether the literal is null. -/
def isNull : Literal → Bool
  | .scalar .null _ => true
  | _ => false

/-- Whether the literal is a text without a format of its own. -/
def isPlainText : Literal → Bool
  | .scalar .string _ => true
  | _ => false

def isScalar : Literal → Bool
  | .scalar .. => true
  | _ => false

mutual

/-- The positions in a literal, each given by the names and indices that lead to it: first the
literal itself, then the positions in its parts, one part after the other. -/
def positions : Literal → List (List String)
  | .array items => [] :: itemPositions 0 items
  | .object members => [] :: memberPositions members
  | _ => [[]]

/-- The positions in the elements of an array, the first of which has the given index. -/
def itemPositions (index : Nat) : List Literal → List (List String)
  | [] => []
  | item :: rest =>
    (positions item).map (writtenNat index :: ·) ++ itemPositions (index + 1) rest

/-- The positions in the members of an object. -/
def memberPositions : List (String × Literal) → List (List String)
  | [] => []
  | (name, member) :: rest => (positions member).map (name :: ·) ++ memberPositions rest

end

/-- A literal in which no object has two members of one name, at whatever depth. -/
inductive HasDistinctNames : Literal → Prop
  | scalar (kind : ScalarKind) (payload : Raw) : HasDistinctNames (.scalar kind payload)
  | array {items : List Literal} (h : ∀ item ∈ items, HasDistinctNames item) :
      HasDistinctNames (.array items)
  | object {members : List (String × Literal)} (hnames : (Fields.names members).Nodup)
      (h : ∀ m ∈ members, HasDistinctNames m.2) : HasDistinctNames (.object members)
  | foreign (raw : Raw) : HasDistinctNames (.foreign raw)

@[simp] lemma hasDistinctNames_scalar (kind : ScalarKind) (payload : Raw) :
    (scalar kind payload).HasDistinctNames := .scalar kind payload

@[simp] lemma hasDistinctNames_array {items : List Literal} :
    (array items).HasDistinctNames ↔ ∀ item ∈ items, item.HasDistinctNames :=
  ⟨fun h => by cases h; assumption, .array⟩

@[simp] lemma hasDistinctNames_object {members : List (String × Literal)} :
    (object members).HasDistinctNames
      ↔ (Fields.names members).Nodup ∧ ∀ m ∈ members, m.2.HasDistinctNames :=
  ⟨fun h => by cases h; exact ⟨‹_›, ‹_›⟩, fun h => .object h.1 h.2⟩

variable {path : List String}

lemma exists_of_mem_itemPositions {index : Nat} {items : List Literal}
    (h : path ∈ itemPositions index items) :
    ∃ i item rest, items[i]? = some item ∧ path = writtenNat (index + i) :: rest
      ∧ rest ∈ item.positions := by
  induction items generalizing index with
  | nil => simp [itemPositions] at h
  | cons item items ih =>
    rw [itemPositions, List.mem_append] at h
    rcases h with h | h
    · obtain ⟨rest, hrest, rfl⟩ := List.mem_map.mp h
      exact ⟨0, item, rest, rfl, rfl, hrest⟩
    · obtain ⟨i, other, rest, hother, rfl, hrest⟩ := ih h
      exact ⟨i + 1, other, rest, hother, by rw [Nat.add_right_comm, Nat.add_assoc], hrest⟩

lemma exists_of_mem_memberPositions {members : List (String × Literal)}
    (h : path ∈ memberPositions members) :
    ∃ m ∈ members, ∃ rest, path = m.1 :: rest ∧ rest ∈ m.2.positions := by
  induction members with
  | nil => simp [memberPositions] at h
  | cons m members ih =>
    obtain ⟨name, member⟩ := m
    rw [memberPositions, List.mem_append] at h
    rcases h with h | h
    · obtain ⟨rest, hrest, rfl⟩ := List.mem_map.mp h
      exact ⟨(name, member), List.mem_cons_self .., rest, rfl, hrest⟩
    · obtain ⟨m, hm, hrest⟩ := ih h
      exact ⟨m, List.mem_cons_of_mem _ hm, hrest⟩

lemma nodup_itemPositions {index : Nat} {items : List Literal}
    (h : ∀ item ∈ items, item.positions.Nodup) : (itemPositions index items).Nodup := by
  induction items generalizing index with
  | nil => exact List.nodup_nil
  | cons item items ih =>
    obtain ⟨hitem, hrest⟩ := List.forall_mem_cons.mp h
    rw [itemPositions, List.nodup_append]
    refine ⟨hitem.map fun _ _ heq => List.tail_eq_of_cons_eq heq, ih hrest, ?_⟩
    rintro _ hfirst _ hother rfl
    obtain ⟨_, -, rfl⟩ := List.mem_map.mp hfirst
    obtain ⟨i, _, _, -, heq, -⟩ := exists_of_mem_itemPositions hother
    have hindex := congrArg indexOf? (List.cons.inj heq).1
    simp only [indexOf?_writtenNat, Option.some.injEq] at hindex
    omega

lemma nodup_memberPositions {members : List (String × Literal)}
    (hnames : (Fields.names members).Nodup) (h : ∀ m ∈ members, m.2.positions.Nodup) :
    (memberPositions members).Nodup := by
  induction members with
  | nil => exact List.nodup_nil
  | cons m members ih =>
    obtain ⟨name, member⟩ := m
    obtain ⟨hmember, hrest⟩ := List.forall_mem_cons.mp h
    rw [Fields.names, List.map_cons, List.nodup_cons] at hnames
    rw [memberPositions, List.nodup_append]
    refine ⟨hmember.map fun _ _ heq => List.tail_eq_of_cons_eq heq, ih hnames.2 hrest, ?_⟩
    rintro _ hfirst _ hother rfl
    obtain ⟨_, -, rfl⟩ := List.mem_map.mp hfirst
    obtain ⟨other, hmem, _, heq, -⟩ := exists_of_mem_memberPositions hother
    exact hnames.1 (List.mem_map.mpr ⟨other, hmem, (List.cons.inj heq).1.symm⟩)

lemma HasDistinctNames.nodup_positions {value : Literal} (h : value.HasDistinctNames) :
    value.positions.Nodup := by
  induction h with
  | scalar kind payload => exact List.nodup_singleton _
  | foreign raw => exact List.nodup_singleton _
  | array _ ih =>
    refine List.nodup_cons.mpr ⟨fun hmem => ?_, nodup_itemPositions ih⟩
    obtain ⟨_, _, _, -, heq, -⟩ := exists_of_mem_itemPositions hmem
    cases heq
  | object hnames _ ih =>
    refine List.nodup_cons.mpr ⟨fun hmem => ?_, nodup_memberPositions hnames ih⟩
    obtain ⟨_, -, _, heq, -⟩ := exists_of_mem_memberPositions hmem
    cases heq

end Literal

namespace Matching

/-- Whether a literal has the type of a schema. -/
def hasType (node : Node) (value : Literal) : Bool :=
  match value.baseType with
  | .ok type => node.type.isText type
  | .error _ => false

/-- Whether a literal diverges from the schema that governs it. The schema has a type, and neither
accepts the literal as null nor as an encoded object. The literal has another type, or it is a
scalar with another format. -/
def diverges (node : Node) (value : Literal) : Bool :=
  !node.type.isNull && !(node.nullable && value.isNull)
    && !(node.type.isText "object" && value.isPlainText)
    && (!hasType node value || (value.isScalar && !sameFormat value.format? node.format))

/-- The schema of a node for the part of a literal under a segment. -/
def schemaToward? (node : Node) : Literal → String → Option Child
  | .array _, _ => node.items
  | .object _, name => memberSchema? node name
  | _, _ => none

/-- The part of a literal at the end of a path, with the schema that governs it. There is one only
if every literal above the part has the type of its own schema, and that schema has one for what
comes next on the path. -/
def governed? (g : Graph) (child : Child) (value : Literal) :
    List String → Option (Node × Literal)
  | [] => (g.resolve child).toOption.map fun found => (found.2, value)
  | segment :: path => do
    let (_, node) ← (g.resolve child).toOption
    let next ← if hasType node value then schemaToward? node value segment else none
    let part ← value.part? segment
    governed? g next part path

/-- Whether a literal diverges at the end of a path from the schema that governs that part of it. -/
def divergesAt (g : Graph) (child : Child) (value : Literal) (path : List String) : Bool :=
  (governed? g child value path).any fun (node, part) => diverges node part

variable {g : Graph} {child : Child} {place : Nat} {node : Node}

/-! ### Divergences at the end of a path -/

@[simp] lemma hasType_array (items : List Literal) :
    hasType node (.array items) = node.type.isText "array" := rfl

@[simp] lemma hasType_object (members : List (String × Literal)) :
    hasType node (.object members) = node.type.isText "object" := rfl

/-- A scalar diverges unless the matcher accepts it. -/
lemma diverges_scalar (kind : ScalarKind) (payload : Raw) :
    diverges node (.scalar kind payload)
      = !(node.type.isNull || acceptsOutright node kind || fitsScalar node kind) := by
  have hnull : (Literal.scalar kind payload).isNull = (kind == .null) := by cases kind <;> rfl
  have htext : (Literal.scalar kind payload).isPlainText = (kind == .string) := by
    cases kind <;> rfl
  have htype : hasType node (.scalar kind payload) = node.type.isText kind.baseType := rfl
  have hformat : (Literal.scalar kind payload).format? = kind.format? := rfl
  simp only [diverges, hnull, htext, htype, hformat, Literal.isScalar, acceptsOutright, fitsScalar,
    Bool.not_or, Bool.not_and, Bool.true_and, Bool.and_assoc]

lemma diverges_array (items : List Literal) :
    diverges node (.array items) = (!node.type.isNull && !node.type.isText "array") := by
  simp [diverges, Literal.isNull, Literal.isPlainText, Literal.isScalar]

lemma diverges_object (members : List (String × Literal)) :
    diverges node (.object members) = (!node.type.isNull && !node.type.isText "object") := by
  simp [diverges, Literal.isNull, Literal.isPlainText, Literal.isScalar]

section Resolved

variable (h : g.resolve child = .ok (place, node))
include h

lemma divergesAt_nil (value : Literal) : divergesAt g child value [] = diverges node value := by
  simp [divergesAt, governed?, h, Except.toOption]

/-- Where a literal has another type, nothing below it is governed. -/
lemma divergesAt_cons_of_not_hasType {value : Literal} (htype : hasType node value = false)
    (segment : String) (path : List String) :
    divergesAt g child value (segment :: path) = false := by
  simp [divergesAt, governed?, h, Except.toOption, htype]

/-- Where a literal has the type of its schema, its parts diverge from their own schemas. -/
lemma divergesAt_cons {value part : Literal} (htype : hasType node value = true) {segment : String}
    (hpart : value.part? segment = some part) (path : List String) :
    divergesAt g child value (segment :: path)
      = (schemaToward? node value segment).any fun next => divergesAt g next part path := by
  cases hnext : schemaToward? node value segment <;>
    simp [divergesAt, governed?, h, Except.toOption, htype, hpart, hnext]

end Resolved

/-! ### What the matcher finds -/

open Components (mismatchesAt mismatchesAt_append mismatchesAt_map_cons)

/-- A literal that is matched with a mismatch wherever it diverges, whatever governs it. -/
def MatchesAtDivergences (g : Graph) (value : Literal) : Prop :=
  ∀ child pointer, (∃ found, g.resolve child = .ok found) →
    mismatches g child pointer value
      = .ok (mismatchesAt pointer (value.positions.filter (divergesAt g child value)))

lemma itemMismatches_eq_filter {next : Child} (hnext : ∃ found, g.resolve next = .ok found)
    {diverging : List String → Bool} {items : List Literal}
    (ih : ∀ item ∈ items, MatchesAtDivergences g item) {index : Nat}
    (hitems : ∀ i item, items[i]? = some item → ∀ path,
      diverging (writtenNat (index + i) :: path) = divergesAt g next item path)
    (pointer : Pointer) :
    itemMismatches g next pointer index items
      = .ok (mismatchesAt pointer ((Literal.itemPositions index items).filter diverging)) := by
  induction items generalizing index with
  | nil => rfl
  | cons item items ih' =>
    obtain ⟨hitem, hrest⟩ := List.forall_mem_cons.mp ih
    have hhere : diverging ∘ (writtenNat index :: ·) = divergesAt g next item :=
      funext fun path => hitems 0 item rfl path
    have hothers : ∀ i other, items[i]? = some other → ∀ path,
        diverging (writtenNat (index + 1 + i) :: path) = divergesAt g next other path := by
      intro i other hother path
      rw [Nat.add_assoc, Nat.add_comm 1 i]
      exact hitems (i + 1) other hother path
    rw [itemMismatches, hitem next _ hnext, ih' hrest hothers, Literal.itemPositions,
      List.filter_append, List.filter_map, hhere, mismatchesAt_append, mismatchesAt_map_cons]
    rfl

lemma memberMismatches_eq_filter
    (hnode : ∀ name next, memberSchema? node name = some next → ∃ found, g.resolve next = .ok found)
    {diverging : List String → Bool} {members : List (String × Literal)}
    (ih : ∀ m ∈ members, MatchesAtDivergences g m.2)
    (hmembers : ∀ m ∈ members, ∀ path,
      diverging (m.1 :: path)
        = (memberSchema? node m.1).any fun next => divergesAt g next m.2 path)
    (pointer : Pointer) :
    memberMismatches g node pointer members
      = .ok (mismatchesAt pointer ((Literal.memberPositions members).filter diverging)) := by
  induction members with
  | nil => rfl
  | cons m members ih' =>
    obtain ⟨name, member⟩ := m
    obtain ⟨hmember, hrest⟩ := List.forall_mem_cons.mp ih
    obtain ⟨hhere, hothers⟩ := List.forall_mem_cons.mp hmembers
    rw [memberMismatches, ih' hrest hothers, Literal.memberPositions, List.filter_append,
      List.filter_map, mismatchesAt_append, mismatchesAt_map_cons]
    cases hnext : memberSchema? node name with
    | none =>
      have hnone : diverging ∘ (name :: ·) = fun _ => false :=
        funext fun path => by simpa [hnext] using hhere path
      rw [hnone, List.filter_false]
      rfl
    | some next =>
      have hsome : diverging ∘ (name :: ·) = divergesAt g next member :=
        funext fun path => by simpa [hnext] using hhere path
      dsimp only
      rw [hsome, hmember next _ (hnode name next hnext)]
      rfl

/-- Where a literal has another type than its schema asks for, it alone can diverge. -/
lemma filter_positions_of_not_hasType (h : g.resolve child = .ok (place, node)) {value : Literal}
    (htype : hasType node value = false) :
    value.positions.filter (divergesAt g child value)
      = if diverges node value then [[]] else [] := by
  obtain ⟨inner, hpositions, hinner⟩ : ∃ inner, value.positions = [] :: inner
      ∧ ∀ path ∈ inner, ∃ segment rest, path = segment :: rest := by
    cases value with
    | array items =>
      refine ⟨_, rfl, fun path hpath => ?_⟩
      obtain ⟨_, _, rest, -, rfl, -⟩ := Literal.exists_of_mem_itemPositions hpath
      exact ⟨_, rest, rfl⟩
    | object members =>
      refine ⟨_, rfl, fun path hpath => ?_⟩
      obtain ⟨_, -, rest, rfl, -⟩ := Literal.exists_of_mem_memberPositions hpath
      exact ⟨_, rest, rfl⟩
    | _ => exact ⟨[], rfl, by simp⟩
  have hnone : inner.filter (divergesAt g child value) = [] := by
    rw [List.filter_eq_nil_iff]
    intro path hpath
    obtain ⟨segment, rest, rfl⟩ := hinner path hpath
    simp [divergesAt_cons_of_not_hasType h htype]
  rw [hpositions, List.filter_cons, divergesAt_nil h, hnone]

/-- Under its type a literal with parts does not diverge itself, and its parts are found below it;
under another type the literal itself is all that can be found. -/
lemma underType_eq_filter (h : g.resolve child = .ok (place, node)) {value : Literal} {type : String}
    (hhas : hasType node value = node.type.isText type)
    (hdiverges : diverges node value = (!node.type.isNull && !node.type.isText type))
    {below : List (List String)} (hpositions : value.positions = [] :: below) (pointer : Pointer)
    {parts : Except Fault (List Finding)}
    (hparts : hasType node value = true →
      parts = .ok (mismatchesAt pointer (below.filter (divergesAt g child value)))) :
    underType node type pointer parts
      = .ok (mismatchesAt pointer (value.positions.filter (divergesAt g child value))) := by
  cases htype : node.type.isText type with
  | false =>
    rw [filter_positions_of_not_hasType h (hhas.trans htype), hdiverges,
      underType_of_not_isText htype, htype]
    cases node.type.isNull <;> rfl
  | true =>
    rw [underType_of_isText htype, hparts (hhas.trans htype), hpositions, List.filter_cons,
      divergesAt_nil h, hdiverges, htype]
    simp

/-- The elements of an array diverge from the schema of its node for elements, if there is one. -/
lemma elementMismatches_eq_filter (hg : g.IsWellFormed) (h : g.resolve child = .ok (place, node))
    {items : List Literal} (ih : ∀ item ∈ items, MatchesAtDivergences g item)
    (htype : hasType node (.array items) = true) (pointer : Pointer) :
    elementMismatches g node pointer items
      = .ok (mismatchesAt pointer
        ((Literal.itemPositions 0 items).filter (divergesAt g child (.array items)))) := by
  have hnode : node ∈ g.nodes := Array.mem_of_getElem? (Graph.resolve_eq_ok_iff.mp h).2
  have hpart : ∀ i, (Literal.array items).part? (writtenNat i) = items[i]? := fun i => by
    rw [Literal.part?, indexOf?_writtenNat, Option.bind_some]
  rw [elementMismatches]
  cases hnext : node.items with
  | none =>
    have hnone : (Literal.itemPositions 0 items).filter (divergesAt g child (.array items)) = [] := by
      rw [List.filter_eq_nil_iff]
      intro path hpath
      obtain ⟨i, item, rest, hitem, rfl, -⟩ := Literal.exists_of_mem_itemPositions hpath
      rw [Nat.zero_add, divergesAt_cons h htype ((hpart i).trans hitem), schemaToward?, hnext]
      simp
    rw [hnone]
    rfl
  | some next =>
    refine itemMismatches_eq_filter (exists_of_items hg hnode hnext) ih
      (fun i item hitem path => ?_) pointer
    rw [Nat.zero_add, divergesAt_cons h htype ((hpart i).trans hitem), schemaToward?, hnext]
    rfl

/-- The matcher finds a mismatch wherever a value diverges from what governs it, and nowhere
else. -/
lemma matchesAtDivergences (hg : g.IsWellFormed) {value : Literal} (hvalue : value.IsValue)
    (hnames : value.HasDistinctNames) : MatchesAtDivergences g value := by
  induction hvalue with
  | scalar kind payload =>
    rintro child pointer ⟨⟨place, node⟩, h⟩
    have hpositions : (Literal.scalar kind payload).positions = [[]] := rfl
    rw [mismatches_scalar h, hpositions, List.filter_singleton, divergesAt_nil h, diverges_scalar]
    cases node.type.isNull || acceptsOutright node kind || fitsScalar node kind <;> rfl
  | @array items _ ih =>
    rintro child pointer ⟨⟨place, node⟩, h⟩
    have hitems := Literal.hasDistinctNames_array.mp hnames
    rw [mismatches_array h]
    exact underType_eq_filter h (hasType_array items) (diverges_array items) rfl pointer
      (elementMismatches_eq_filter hg h (fun item hitem => ih item hitem (hitems item hitem)) · pointer)
  | @object members _ ih =>
    rintro child pointer ⟨⟨place, node⟩, h⟩
    obtain ⟨hmembers, hvalues⟩ := Literal.hasDistinctNames_object.mp hnames
    have hnode : node ∈ g.nodes := Array.mem_of_getElem? (Graph.resolve_eq_ok_iff.mp h).2
    rw [mismatches_object h]
    refine underType_eq_filter h (hasType_object members) (diverges_object members) rfl pointer
      fun htype => ?_
    -- A path leads to the first member of its name, so the names must be distinct here.
    exact memberMismatches_eq_filter (fun _ _ hnext => exists_of_memberSchema? hg hnode hnext)
      (fun m hm => ih m hm (hvalues m hm))
      (fun m hm path => divergesAt_cons h htype (Fields.find?_of_mem hmembers hm) path) pointer

/-! ### What is reported -/

lemma exists_of_divergesAt_cons {value : Literal} {segment : String} {path : List String}
    (hdiverges : divergesAt g child value (segment :: path) = true) :
    ∃ place node next part, g.resolve child = .ok (place, node) ∧ hasType node value = true
      ∧ schemaToward? node value segment = some next ∧ value.part? segment = some part
      ∧ divergesAt g next part path = true := by
  cases h : g.resolve child with
  | error raw => simp [divergesAt, governed?, h, Except.toOption] at hdiverges
  | ok found =>
    obtain ⟨place, node⟩ := found
    cases htype : hasType node value with
    | false => simp [divergesAt_cons_of_not_hasType h htype] at hdiverges
    | true =>
      cases hpart : value.part? segment with
      | none => simp [divergesAt, governed?, h, Except.toOption, hpart] at hdiverges
      | some part =>
        rw [divergesAt_cons h htype hpart, Option.any_eq_true] at hdiverges
        obtain ⟨next, hnext, hdiverges⟩ := hdiverges
        exact ⟨place, node, next, part, rfl, htype, hnext, rfl, hdiverges⟩

/-- What has parts diverges by its type, and then nothing governs them. -/
lemma not_divergesAt_below {value : Literal} {path : List String}
    (hdiverges : divergesAt g child value path = true) (segment : String) (more : List String) :
    divergesAt g child value (path ++ segment :: more) = false := by
  induction path generalizing child value with
  | nil =>
    rw [List.nil_append, ← Bool.not_eq_true]
    intro hbelow
    obtain ⟨place, node, next, part, h, htype, -, hpart, -⟩ := exists_of_divergesAt_cons hbelow
    rw [divergesAt_nil h, diverges, htype] at hdiverges
    cases value with
    | scalar kind payload => cases hpart
    | foreign raw => cases hpart
    | _ => simp [Literal.isScalar] at hdiverges
  | cons first path ih =>
    obtain ⟨place, node, next, part, h, htype, hnext, hpart, hdiverges⟩ :=
      exists_of_divergesAt_cons hdiverges
    rw [List.cons_append, divergesAt_cons h htype hpart, hnext, Option.any_some, ih hdiverges]

/-- In a well-formed graph, the matcher returns one mismatch for each part of a value that diverges
from the schema that governs it, in the order of the positions in the value. It reports the part at
the pointer that its names and indices lead to, so it reports no pointer twice, and none that goes
on behind a slash after another one. -/
theorem mismatches_at_divergences (hg : g.IsWellFormed) (hchild : ∃ found, g.resolve child = .ok found)
    {value : Literal} (hvalue : value.IsValue) (hnames : value.HasDistinctNames)
    (pointer : Pointer) :
    ∃ fs, mismatches g child pointer value = .ok fs
      ∧ fs = (value.positions.filter (divergesAt g child value)).map (fun path =>
          ⟨"TypeMismatch", pointer.through path, "Data and type mismatch found.", .typeMismatch⟩)
      ∧ (fs.map Finding.pointer).Nodup
      ∧ ∀ f ∈ fs, ∀ f' ∈ fs, ∀ rest, f'.pointer ≠ f.pointer ++ "/" ++ rest := by
  refine ⟨_, matchesAtDivergences hg hvalue hnames child pointer hchild, rfl, ?_, ?_⟩
  · have hpointers : ((mismatchesAt pointer
        (value.positions.filter (divergesAt g child value))).map Finding.pointer)
        = (value.positions.filter (divergesAt g child value)).map pointer.through := by
      rw [mismatchesAt, List.map_map]
      rfl
    rw [hpointers]
    exact (hnames.nodup_positions.filter _).map pointer.through_injective
  · intro f hf f' hf' rest heq
    obtain ⟨path, hpath, rfl⟩ := List.mem_map.mp hf
    obtain ⟨path', hpath', rfl⟩ := List.mem_map.mp hf'
    obtain ⟨segment, more, rfl⟩ := Pointer.exists_of_through_eq heq
    have hbelow := not_divergesAt_below (List.mem_filter.mp hpath).2 segment more
    rw [(List.mem_filter.mp hpath').2] at hbelow
    cases hbelow

end Matching

/-- A schema of objects that governs all members by itself, but for `a/b`, which is an array of
integers of 64 bits, and `a`, which has any type. -/
def Graph.looped : Graph :=
  ⟨#[{ SchemaNode.blank with
        type := .str "object", nullable := true, properties := [("a/b", .node 1), ("a", .node 3)],
        additional := some (.node 0) },
      { SchemaNode.blank with type := .str "array", items := some (.node 2) },
      { SchemaNode.blank with type := .str "integer", format := .str "int64" },
      SchemaNode.blank]⟩

/-- An object of the schema with a fault in an element, one in a member of a member, and one that
nothing governs. -/
def Literal.knotted : Literal :=
  .object [("a/b", .array [.scalar .long (.int 1), .scalar .integer (.int 2), .array []]),
    ("b", .object [("a/b", .scalar .string (.str "x")), ("c", .scalar .string (.str "y")),
      ("d", .scalar .null .null)]),
    ("a", .array [.object [("b", .scalar .boolean (.bool true))]])]

theorem Matching.mismatches_at_divergences_looped :
    Graph.looped.IsWellFormed ∧ (∃ found, Graph.looped.resolve (.node 0) = .ok found)
    ∧ Literal.knotted.IsValue ∧ Literal.knotted.HasDistinctNames
    ∧ ∃ fs, mismatches .looped (.node 0) "#" .knotted = .ok fs
      ∧ fs.map Finding.pointer = ["#/a~1b/1", "#/a~1b/2", "#/b/a~1b"]
      ∧ (fs.map Finding.pointer).Nodup
      ∧ ∀ f ∈ fs, ∀ f' ∈ fs, ∀ rest, f'.pointer ≠ f.pointer ++ "/" ++ rest := by
  have hg : Graph.looped.IsWellFormed := by decide
  have hchild : ∃ found, Graph.looped.resolve (.node 0) = .ok found := ⟨_, rfl⟩
  have hvalue : Literal.knotted.IsValue := by simp [Literal.knotted]
  have hnames : Literal.knotted.HasDistinctNames := by simp [Literal.knotted, Fields.names]
  obtain ⟨fs, hfs, heq, hnodup, hapart⟩ :=
    Matching.mismatches_at_divergences hg hchild hvalue hnames "#"
  refine ⟨hg, hchild, hvalue, hnames, fs, hfs, ?_, hnodup, hapart⟩
  rw [heq]
  decide +kernel

end ApiLint
