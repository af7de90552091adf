import Mathlib.Data.String.Basic
import ApiLint.Proofs.Document.Issues
import ApiLint.Proofs.Number.Decimal

/-!
# The order of envelope issues

The issues of a document are in the order of their paths, which are lists of texts. So an issue
stands before those below it. But the indices of a list are compared as decimal texts: among the
elements of a list the order is that of the indices as long as these have equally many digits, and
the issues of the element `10` stand before those of the element `2`.
-/

namespace ApiLint

namespace EnvelopeIssue

variable {x y z : EnvelopeIssue}

/-- The order of issues is that of their paths. -/
lemma le_iff : le x y = true ↔ x.path ≤ y.path := by
  rw [le, Bool.not_eq_true', ← Bool.not_eq_true, List.lex_eq_true_iff_lt, not_lt]

end EnvelopeIssue

namespace Envelope

variable {document : Raw} {base : List String} {i j p q : Nat} {x y : EnvelopeIssue}

lemma pairwise_orderedIssues (document : Raw) :
    (orderedIssues document).Pairwise fun x y => x.path ≤ y.path := by
  refine (List.pairwise_mergeSort ?_ ?_ (documentIssues document)).imp EnvelopeIssue.le_iff.mp
  · intro x y z hxy hyz
    rw [EnvelopeIssue.le_iff] at hxy hyz ⊢
    exact hxy.trans hyz
  · intro x y
    rw [Bool.or_eq_true, EnvelopeIssue.le_iff, EnvelopeIssue.le_iff]
    exact le_total _ _

/-- The issue with the smaller path stands first. -/
lemma lt_of_path_lt (hx : (orderedIssues document)[p]? = some x)
    (hy : (orderedIssues document)[q]? = some y) (h : x.path < y.path) : p < q := by
  obtain ⟨hp, rfl⟩ := List.getElem?_eq_some_iff.mp hx
  obtain ⟨hq, rfl⟩ := List.getElem?_eq_some_iff.mp hy
  rcases lt_trichotomy p q with hlt | rfl | hgt
  · exact hlt
  · exact absurd h (lt_irrefl _)
  · have hle := List.pairwise_iff_getElem.mp (pairwise_orderedIssues document) q p hq hp hgt
    exact absurd h hle.not_gt

lemma lt_iff_path_lt (hx : (orderedIssues document)[p]? = some x)
    (hy : (orderedIssues document)[q]? = some y) (hne : x.path ≠ y.path) :
    p < q ↔ x.path < y.path := by
  refine ⟨fun hlt => ?_, lt_of_path_lt hx hy⟩
  by_contra hnot
  exact absurd (lt_of_path_lt hy hx (lt_of_le_of_ne (not_lt.mp hnot) hne.symm)) hlt.not_gt

lemma exists_position (document : Raw) (path : List String)
    (h : path ∈ (documentIssues document).map EnvelopeIssue.path) :
    ∃ (p : Nat) (x : EnvelopeIssue), (orderedIssues document)[p]? = some x ∧ x.path = path := by
  obtain ⟨x, hx, rfl⟩ := List.mem_map.mp h
  obtain ⟨p, hp⟩ := List.mem_iff_getElem?.mp (mem_orderedIssues_iff.mpr hx)
  exact ⟨p, x, hp, rfl⟩

/-! ### Paths through a list -/

lemma append_lt_append_iff {xs ys : List String} : base ++ xs < base ++ ys ↔ xs < ys := by
  induction base with
  | nil => rfl
  | cons segment base ih => simp [ih]

lemma path_lt_of_below (h : x.path <+: y.path) (hne : x.path ≠ y.path) : x.path < y.path := by
  obtain ⟨rest, hrest⟩ := h
  cases rest with
  | nil => exact absurd (by rw [← hrest, List.append_nil]) hne
  | cons segment rest =>
    rw [← hrest]
    have hlt : x.path ++ [] < x.path ++ segment :: rest := append_lt_append_iff.mpr (by simp)
    rwa [List.append_nil] at hlt

/-- Paths to elements of one list are in the order of the decimal texts of the indices. -/
lemma path_lt_iff_of_elements (h : i < j) (hx : base ++ [writtenNat i] <+: x.path)
    (hy : base ++ [writtenNat j] <+: y.path) :
    x.path ≠ y.path ∧ (x.path < y.path
      ↔ i ≤ j / 10 ^ ((writtenNat j).length - (writtenNat i).length)) := by
  obtain ⟨xs, hxs⟩ := hx
  obtain ⟨ys, hys⟩ := hy
  have hne : writtenNat i ≠ writtenNat j := fun heq => h.ne (writtenNat_inj.mp heq)
  rw [← hxs, ← hys, List.append_assoc, List.append_assoc]
  refine ⟨fun heq => hne (List.cons.inj (List.append_cancel_left heq)).1, ?_⟩
  -- above the list the paths agree, and the two indices differ, so they decide
  rw [append_lt_append_iff, List.singleton_append, List.singleton_append, List.cons_lt_cons_iff,
    String.lt_iff, toList_writtenNat, toList_writtenNat, Decimal.toDigits_lt_iff h,
    ← String.length_toList, ← String.length_toList, toList_writtenNat, toList_writtenNat]
  exact or_iff_left fun heq => hne heq.1

/-- An issue stands before those strictly below it. Of two issues at or below elements of one list,
the one of the smaller index stands first as long as the index is not above the digits that the
greater one begins with, as many as it has itself. So both orders agree on indices with equally many
digits. -/
theorem position_lt_iff_of_elements {document : Raw} {is : List EnvelopeIssue}
    (his : issues document = .ok is) {p q : Nat} {x y : EnvelopeIssue} (hx : is[p]? = some x)
    (hy : is[q]? = some y) :
    (x.pointer.segments <+: y.pointer.segments → x.pointer.segments ≠ y.pointer.segments → p < q)
    ∧ ∀ base i j, i < j → base ++ [writtenNat i] <+: x.pointer.segments →
      base ++ [writtenNat j] <+: y.pointer.segments →
      (p < q ↔ i ≤ j / 10 ^ ((writtenNat j).length - (writtenNat i).length)) := by
  obtain ⟨-, rfl⟩ := issues_eq_ok_iff.mp his
  simp only [segments_pointer]
  refine ⟨fun hbelow hne => lt_of_path_lt hx hy (path_lt_of_below hbelow hne), ?_⟩
  intro base i j h hi hj
  obtain ⟨hne, hlt⟩ := path_lt_iff_of_elements h hi hj
  rw [lt_iff_path_lt hx hy hne, hlt]

/-- A document of no version, whose list of names has numbers at the places 2, 3 and 10. -/
def namesDocument : Raw :=
  .ofFields [("definitions", .ofFields [("Pet", .ofFields [("required", .list
    [.str "a", .str "b", .int 3, .int 4, .str "e", .str "f", .str "g", .str "h", .str "i",
      .str "j", .int 11])])])]

lemma paths_namesDocument : (documentIssues namesDocument).map EnvelopeIssue.path =
    [[], ["definitions", "Pet", "required", "2"], ["definitions", "Pet", "required", "3"],
      ["definitions", "Pet", "required", "10"]] := by
  decide +kernel

lemma issues_namesDocument : issues namesDocument = .ok (orderedIssues namesDocument) :=
  issues_eq_ok_of_isWritable (by decide +kernel)

theorem position_lt_iff_of_elements_names : ∃ is, issues namesDocument = .ok is
    ∧ ∃ (p q r : Nat) (x y z : EnvelopeIssue), is[p]? = some x ∧ x.pointer = "#"
      ∧ is[q]? = some y ∧ y.pointer = "#/definitions/Pet/required/2"
      ∧ is[r]? = some z ∧ z.pointer = "#/definitions/Pet/required/3" ∧ p < q ∧ q < r := by
  obtain ⟨p, x, hx, hxpath⟩ := exists_position namesDocument
    [] (by rw [paths_namesDocument]; decide)
  obtain ⟨q, y, hy, hypath⟩ := exists_position namesDocument
    ["definitions", "Pet", "required", "2"] (by rw [paths_namesDocument]; decide)
  obtain ⟨r, z, hz, hzpath⟩ := exists_position namesDocument
    ["definitions", "Pet", "required", "3"] (by rw [paths_namesDocument]; decide)
  refine ⟨_, issues_namesDocument, p, q, r, x, y, z, hx, ?_, hy, ?_, hz, ?_, ?_, ?_⟩
  · rw [EnvelopeIssue.pointer, hxpath]
    decide
  · rw [EnvelopeIssue.pointer, hypath]
    decide
  · rw [EnvelopeIssue.pointer, hzpath]
    decide
  · refine (position_lt_iff_of_elements issues_namesDocument hx hy).1 ?_ ?_
    · rw [segments_pointer, hxpath]
      exact List.nil_prefix
    · rw [segments_pointer, segments_pointer, hxpath, hypath]
      decide
  · refine ((position_lt_iff_of_elements issues_namesDocument hy hz).2
      ["definitions", "Pet", "required"] 2 3 (by decide) ?_ ?_).mpr (by decide)
    · rw [segments_pointer, hypath]
      decide
    · rw [segments_pointer, hzpath]
      decide

/-- The issue of the element at place 10 stands before that of the element at place 2. -/
theorem issue_of_tenth_element_first : ∃ is, issues namesDocument = .ok is
    ∧ ∃ (p q : Nat) (x y : EnvelopeIssue), p < q
      ∧ is[p]? = some x ∧ x.pointer = "#/definitions/Pet/required/10"
      ∧ is[q]? = some y ∧ y.pointer = "#/definitions/Pet/required/2" := by
  obtain ⟨p, x, hx, hxpath⟩ := exists_position namesDocument
    ["definitions", "Pet", "required", "10"] (by rw [paths_namesDocument]; decide)
  obtain ⟨q, y, hy, hypath⟩ := exists_position namesDocument
    ["definitions", "Pet", "required", "2"] (by rw [paths_namesDocument]; decide)
  refine ⟨_, issues_namesDocument, p, q, x, y, lt_of_path_lt hx hy ?_, hx, ?_, hy, ?_⟩
  · rw [hxpath, hypath]
    decide
  · rw [EnvelopeIssue.pointer, hxpath]
    decide
  · rw [EnvelopeIssue.pointer, hypath]
    decide

end Envelope

end ApiLint
