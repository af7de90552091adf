import Mathlib.Data.String.Basic
import ApiLint.Files.Path
import ApiLint.Proofs.Raw.Address

/-!
# Paths and their texts

A path that is read from a text has a root as roots are written, and names without slashes. The text
of such a path is read as the path again, and its parts are those of no other. So the order of
paths, which is that of their parts, tells any two of them apart, and there is one way to sort
paths.
-/

namespace ApiLint

lemma Text.splitChars_intercalate {separator : Char} {parts : List (List Char)}
    (h : ∀ part ∈ parts, separator ∉ part) (hne : parts ≠ []) :
    splitChars separator ([separator].intercalate parts) = parts := by
  induction parts with
  | nil => exact absurd rfl hne
  | cons part parts ih =>
    obtain ⟨hpart, hparts⟩ := List.forall_mem_cons.mp h
    cases parts with
    | nil =>
      have hsplit := splitChars_append hpart []
      simpa [splitChars] using hsplit
    | cons next parts =>
      rw [List.intercalate_cons_cons, List.append_assoc, splitChars_append hpart,
        List.singleton_append, splitChars, if_pos rfl, ih hparts (List.cons_ne_nil _ _)]
      simp

namespace FilePath

variable {p q : FilePath} {ps qs : List FilePath}

/-! ### Paths that texts are read as -/

/-- A name as it stands in the text of a path. -/
def IsWritten (name : String) : Prop := isName name = true ∧ '/' ∉ name.toList

instance : DecidablePred IsWritten := fun _ => inferInstanceAs (Decidable (_ ∧ _))

/-- A path with a root as roots are written and such names. -/
structure IsNormal (p : FilePath) : Prop where
  root : p.root = "" ∨ p.root = "/" ∨ p.root = "//"
  names : ∀ name ∈ p.names, IsWritten name

lemma rootOf_mem (cs : List Char) : rootOf cs = "" ∨ rootOf cs = "/" ∨ rootOf cs = "//" := by
  unfold rootOf
  split <;> simp

lemma isNormal_ofText (text : String) : (ofText text).IsNormal where
  root := rootOf_mem text.toList
  names := by
    intro name hname
    obtain ⟨hmem, hisName⟩ := List.mem_filter.mp hname
    obtain ⟨part, hpart, rfl⟩ := List.mem_map.mp hmem
    refine ⟨hisName, ?_⟩
    rw [String.toList_ofList]
    exact Text.notMem_of_mem_splitChars hpart

lemma IsWritten.ne_nil {name : String} (h : IsWritten name) : name.toList ≠ [] := by
  intro hnil
  have hempty : name = "" := String.toList_eq_nil_iff.mp hnil
  subst hempty
  exact absurd h.1 (by decide)

/-- A text of names does not begin with a slash. -/
lemma head?_names_ne {names : List String} (h : ∀ name ∈ names, IsWritten name) :
    (['/'].intercalate (names.map String.toList)).head? ≠ some '/' := by
  cases names with
  | nil => simp
  | cons name names =>
    obtain ⟨hname, -⟩ := List.forall_mem_cons.mp h
    have hhead : name.toList.head? ≠ some '/' := fun hslash => hname.2 (List.mem_of_head? hslash)
    cases names with
    | nil => simpa using hhead
    | cons next names =>
      rwa [List.map_cons, List.map_cons, List.intercalate_cons_cons, List.append_assoc,
        List.head?_append_of_ne_nil _ hname.ne_nil]

lemma rootOf_append {root : String} (hroot : root = "" ∨ root = "/" ∨ root = "//")
    {cs : List Char} (h : cs.head? ≠ some '/') : rootOf (root.toList ++ cs) = root := by
  cases cs with
  | nil => rcases hroot with rfl | rfl | rfl <;> rfl
  | cons c cs =>
    have hc : c ≠ '/' := fun hslash => h (congrArg some hslash)
    rcases hroot with rfl | rfl | rfl <;> simp [rootOf, hc]

/-- The names in a text of names. -/
lemma names_of_split {names : List String} (h : ∀ name ∈ names, IsWritten name) :
    ((Text.splitChars '/' (['/'].intercalate (names.map String.toList))).map String.ofList).filter
      isName = names := by
  cases names with
  | nil => rfl
  | cons name names =>
    rw [Text.splitChars_intercalate _ (by simp), List.map_map]
    · have hid : String.ofList ∘ String.toList = id := funext fun s => String.ofList_toList
      rw [hid, List.map_id, List.filter_eq_self]
      exact fun s hs => (h s hs).1
    · intro part hpart
      obtain ⟨s, hs, rfl⟩ := List.mem_map.mp hpart
      exact (h s hs).2

/-- The text of a path is read as the path. -/
lemma ofText_text (h : p.IsNormal) : ofText p.text = p := by
  obtain ⟨root, names⟩ := p
  obtain ⟨hroot, hnames⟩ := h
  dsimp only at hroot hnames
  rw [text]
  split
  · next hempty =>
    rw [Bool.and_eq_true, String.isEmpty_iff, List.isEmpty_iff] at hempty
    obtain ⟨rfl, rfl⟩ := hempty
    decide
  · have hchars : (root ++ "/".intercalate names).toList
        = root.toList ++ ['/'].intercalate (names.map String.toList) := by
      rw [String.toList_append, String.toList_intercalate]
      rfl
    rw [ofText, Text.split, hchars, rootOf_append hroot (head?_names_ne hnames), mk.injEq]
    -- the slashes of the root only add parts that are empty
    rcases hroot with rfl | rfl | rfl <;> exact ⟨rfl, names_of_split hnames⟩

/-! ### The order -/

/-- A root is not taken for a name. -/
lemma IsNormal.root_notMem (hp : p.IsNormal) (hq : q.IsNormal) (h : p.root ≠ "") :
    p.root ∉ q.names := by
  intro hmem
  have hslash := (hq.names _ hmem).2
  rcases hp.root with hroot | hroot | hroot
  · exact h hroot
  · exact hslash (by rw [hroot]; decide)
  · exact hslash (by rw [hroot]; decide)

lemma parts_inj (hp : p.IsNormal) (hq : q.IsNormal) : p.parts = q.parts ↔ p = q := by
  refine ⟨fun h => ?_, congrArg parts⟩
  have hpq := hp.root_notMem hq
  have hqp := hq.root_notMem hp
  obtain ⟨root, names⟩ := p
  obtain ⟨root', names'⟩ := q
  by_cases hroot : root = "" <;> by_cases hroot' : root' = ""
  · simpa [parts, hroot, hroot'] using h
  · have hnames : names = root' :: names' := by simpa [parts, hroot, hroot'] using h
    exact absurd (hnames ▸ List.mem_cons_self ..) (hqp hroot')
  · have hnames : root :: names = names' := by simpa [parts, hroot, hroot'] using h
    exact absurd (hnames ▸ List.mem_cons_self ..) (hpq hroot)
  · simpa [parts, hroot, hroot'] using h

lemma le_iff : le p q = true ↔ p.parts ≤ q.parts := by
  rw [le, Bool.not_eq_true', ← Bool.not_eq_true, List.lex_eq_true_iff_lt, not_lt]

lemma mem_sorted : p ∈ sorted ps ↔ p ∈ ps := by
  rw [sorted, List.mem_mergeSort, List.mem_eraseDups]

lemma nodup_eraseDups (ps : List FilePath) : ps.eraseDups.Nodup := by
  induction h : ps.length using Nat.strong_induction_on generalizing ps with
  | _ n ih =>
    cases ps with
    | nil => simp
    | cons p ps =>
      subst h
      rw [List.eraseDups_cons, List.nodup_cons]
      refine ⟨by simp, ih _ (Nat.lt_succ_of_le (List.length_filter_le _ _)) _ rfl⟩

/-- Sorted paths increase, and none stands twice. -/
lemma pairwise_sorted (h : ∀ p ∈ ps, p.IsNormal) :
    (sorted ps).Pairwise fun p q => p.parts < q.parts := by
  have hle : (sorted ps).Pairwise fun p q => p.parts ≤ q.parts := by
    refine (List.pairwise_mergeSort ?_ ?_ ps.eraseDups).imp le_iff.mp
    · intro p q r hpq hqr
      rw [le_iff] at hpq hqr ⊢
      exact hpq.trans hqr
    · intro p q
      rw [Bool.or_eq_true, le_iff, le_iff]
      exact le_total _ _
  have hnodup : (sorted ps).Nodup := (List.mergeSort_perm _ _).nodup_iff.mpr (nodup_eraseDups ps)
  refine (hle.and hnodup).imp_of_mem ?_
  rintro p q hp hq ⟨hpq, hne⟩
  refine lt_of_le_of_ne hpq fun heq => hne ?_
  exact (parts_inj (h p (mem_sorted.mp hp)) (h q (mem_sorted.mp hq))).mp heq

/-- There is one increasing list of given paths. -/
lemma sorted_eq_of_mem_iff (h : ∀ p ∈ ps, p.IsNormal) (hqs : qs.Pairwise fun p q => p.parts < q.parts)
    (hmem : ∀ p, p ∈ qs ↔ p ∈ ps) : sorted ps = qs := by
  have hps := pairwise_sorted h
  refine List.Perm.eq_of_pairwise ?_ hps hqs ?_
  · exact fun p q _ _ hpq hqp => absurd hpq hqp.not_gt
  · refine (List.perm_ext_iff_of_nodup (hps.imp ?_) (hqs.imp ?_)).mpr ?_
    · rintro p q hlt rfl
      exact lt_irrefl _ hlt
    · rintro p q hlt rfl
      exact lt_irrefl _ hlt
    · exact fun p => mem_sorted.trans (hmem p).symm

/-! ### Suffixes -/

lemma suffixOf_append (before : List Char) {letters : List Char} (hne : letters ≠ [])
    (hdot : '.' ∉ letters) :
    suffixOf (String.ofList (before ++ '.' :: letters))
      = if before.isEmpty then "" else String.ofList ('.' :: letters) := by
  have hreversed : (String.ofList (before ++ '.' :: letters)).toList.reverse
      = letters.reverse ++ '.' :: before.reverse := by
    simp
  have htail : (letters.reverse ++ '.' :: before.reverse).takeWhile (· != '.') = letters.reverse := by
    rw [List.takeWhile_append_of_pos]
    · simp
    · intro c hc
      simpa using fun heq : c = '.' => hdot (heq ▸ List.mem_reverse.mp hc)
  rw [suffixOf, hreversed, htail]
  simp [hne]

/-- A name ends in its suffix. -/
lemma suffixOf_suffix (name : String) : (suffixOf name).toList <:+ name.toList := by
  rw [← List.reverse_prefix, suffixOf]
  split
  · exact List.nil_prefix
  · next h =>
    have hsplit := List.takeWhile_append_dropWhile (p := (· != '.')) (l := name.toList.reverse)
    cases hrest : name.toList.reverse.dropWhile (· != '.') with
    | nil =>
      rw [hrest, List.append_nil] at hsplit
      simp [hsplit] at h
    | cons c rest =>
      have hc : c = '.' := by
        have hhead := List.head?_dropWhile_not (· != '.') name.toList.reverse
        simpa [hrest] using hhead
      rw [hrest, hc] at hsplit
      exact ⟨rest, Eq.trans (by simp) hsplit⟩

end FilePath

end ApiLint
