import Mathlib.Data.List.Forall2
import ApiLint.Document.Reader

/-!
# What a reader keeps

While the files stay as they are, a reader keeps for a path what it would read there. Its documents
and the places of their values are kept apart, and a reading may fail before it comes to either;
still the two hold the same paths after every reading, each with the parts of the document that is
there. So it cannot be told from the documents whether a reader keeps any.
-/

namespace ApiLint

/-- A path is refused, or it leads to nothing or to an entry. -/
lemma FileTree.lookup_cases (t : FileTree) (path : FilePath) :
    (∃ refusal, t.lookup path = .error refusal) ∨ t.lookup path = .ok none
      ∨ ∃ entry, t.lookup path = .ok (some entry) := by
  rcases t.lookup path with refusal | _ | entry
  · exact .inl ⟨refusal, rfl⟩
  · exact .inr (.inl rfl)
  · exact .inr (.inr ⟨entry, rfl⟩)

/-- The document at a path, read from what stands there. -/
def FileTree.documentAt (t : FileTree) (path : FilePath) : Except ReadError SourceDocument :=
  match t.lookup path with
  | .error refusal => .error (.refused refusal)
  | .ok none => .error (.notFound path)
  | .ok (some entry) => SourceDocument.ofEntry path entry

namespace DocumentReader

variable {r : DocumentReader} {tree : FileTree} {path : FilePath} {d : SourceDocument}

/-! ### The two tables -/

lemma documents_keep (h : r.keeps = true) :
    (r.keep path d).documents = (path, d.entries) :: r.documents := by
  rw [keep, if_pos h]
  rfl

lemma sourceMaps_keep (h : r.keeps = true) :
    (r.keep path d).sourceMaps = (path, d.sourceMap) :: r.sourceMaps := by
  rw [keep, if_pos h]
  rfl

@[simp] lemma keeps_keep : (r.keep path d).keeps = r.keeps := by
  rw [keep]
  split <;> rfl

lemma kept?_keep (h : r.keeps = true) : (r.keep path d).kept? path = some (.ok d) := by
  simp [kept?, documents_keep h, sourceMaps_keep h, h]

/-- A reader that keeps the documents and the places of a tree: its tables hold the same paths, each
with its part of the document that is there. -/
def Mirrors (r : DocumentReader) (tree : FileTree) : Prop :=
  List.Forall₂ (fun entry places => places.1 = entry.1
    ∧ tree.documentAt entry.1 = .ok ⟨entry.2, places.2⟩) r.documents r.sourceMaps

lemma mirrors_fresh (keeps : Bool) (tree : FileTree) : Mirrors ⟨keeps, []⟩ tree := .nil

/-- Whether a reader keeps what it reads plays no part in what it has kept. -/
lemma Mirrors.switch (h : r.Mirrors tree) (keeps : Bool) : Mirrors { r with keeps } tree := h

lemma mirrors_forget (r : DocumentReader) (tree : FileTree) : r.forget.Mirrors tree := .nil

lemma Mirrors.keep (h : r.Mirrors tree) (hd : tree.documentAt path = .ok d) :
    (r.keep path d).Mirrors tree := by
  by_cases hkeeps : r.keeps = true
  · rw [Mirrors, documents_keep hkeeps, sourceMaps_keep hkeeps]
    exact .cons ⟨rfl, hd⟩ h
  · rw [DocumentReader.keep, if_neg hkeeps]
    exact h

/-- A path stands in neither table, or in both with the document that is there. -/
lemma Mirrors.lookup (h : r.Mirrors tree) (path : FilePath) :
    r.documents.lookup path = none
      ∨ ∃ d, tree.documentAt path = .ok d ∧ r.documents.lookup path = some d.entries
        ∧ r.sourceMaps.lookup path = some d.sourceMap := by
  rw [Mirrors] at h
  generalize r.documents = documents, r.sourceMaps = sourceMaps at h ⊢
  induction h with
  | nil => exact .inl rfl
  | @cons entry places _ _ hhead _ ih =>
    obtain ⟨_, entries⟩ := entry
    obtain ⟨other, sourceMap⟩ := places
    obtain ⟨rfl, hdocument⟩ := hhead
    rw [List.lookup_cons, List.lookup_cons]
    by_cases hpath : path = other
    · subst hpath
      rw [beq_self_eq_true]
      exact .inr ⟨⟨entries, sourceMap⟩, hdocument, rfl, rfl⟩
    · rw [beq_eq_false_iff_ne.mpr hpath]
      exact ih

/-- What is kept for a path is the document that is there. -/
lemma Mirrors.kept? (h : r.Mirrors tree) (path : FilePath) :
    r.kept? path = none ∨ ∃ d, tree.documentAt path = .ok d ∧ r.kept? path = some (.ok d) := by
  rw [DocumentReader.kept?]
  split
  · obtain hnone | ⟨d, hd, hentries, hplaces⟩ := h.lookup path
    · exact .inl (by rw [hnone]; rfl)
    · exact .inr ⟨d, hd, by rw [hentries, hplaces]; rfl⟩
  · exact .inl rfl

/-! ### Readings -/

/-- A reading as it should be: it comes to what stands at the path, and the reader after it mirrors
the tree. After a failure that is the reader before, and after a success a reader that keeps
documents keeps the one that was read. -/
structure ReadsThrough (r : DocumentReader) (tree : FileTree) (path : FilePath) : Prop where
  document : (r.read tree path).document = tree.documentAt path
  mirrors : (r.read tree path).reader.Mirrors tree
  failed : ∀ e, tree.documentAt path = .error e → (r.read tree path).reader = r
  kept : ∀ d, tree.documentAt path = .ok d → r.keeps = true →
    (r.read tree path).reader.kept? path = some (.ok d)

section Files

variable {entry : FileEntry} (hentry : tree.lookup path = .ok (some entry))
  (hdirectory : entry ≠ .directory) (hspecial : entry ≠ .special)
include hentry hdirectory hspecial

/-- What is kept is given without another look at the file. -/
lemma read_of_kept {document : Except ReadError SourceDocument}
    (hkept : r.kept? path = some document) :
    (r.read tree path).document = document ∧ (r.read tree path).reader = r := by
  cases entry with
  | directory => exact absurd rfl hdirectory
  | special => exact absurd rfl hspecial
  | file content => simp [read, hentry, hkept]
  | unreadable reason => simp [read, hentry, hkept]

/-- A file that is not kept is read, and kept if it is a document. -/
lemma read_of_not_kept (hkept : r.kept? path = none) :
    (r.read tree path).document = tree.documentAt path
      ∧ (r.read tree path).reader
        = match tree.documentAt path with
          | .ok d => r.keep path d
          | .error _ => r := by
  have hat : tree.documentAt path = SourceDocument.ofEntry path entry := by
    rw [FileTree.documentAt, hentry]
  rw [hat]
  cases entry with
  | directory => exact absurd rfl hdirectory
  | special => exact absurd rfl hspecial
  | file content =>
    simp only [read, hentry, hkept]
    cases SourceDocument.ofEntry path (.file content) <;> exact ⟨rfl, rfl⟩
  | unreadable reason =>
    simp only [read, hentry, hkept]
    cases SourceDocument.ofEntry path (.unreadable reason) <;> exact ⟨rfl, rfl⟩

end Files

/-- A reading that leaves the reader as it is. -/
lemma Mirrors.readsThrough_of_unchanged (h : r.Mirrors tree)
    (hdocument : (r.read tree path).document = tree.documentAt path)
    (hreader : (r.read tree path).reader = r)
    (hkept : ∀ d, tree.documentAt path = .ok d → r.keeps = true → r.kept? path = some (.ok d)) :
    r.ReadsThrough tree path where
  document := hdocument
  mirrors := by rwa [hreader]
  failed _ _ := hreader
  kept := by rwa [hreader]

/-- A reading that fails before anything is read. -/
lemma Mirrors.readsThrough_of_error (h : r.Mirrors tree) {e : ReadError}
    (hat : tree.documentAt path = .error e) (hread : r.read tree path = ⟨.error e, r, []⟩) :
    r.ReadsThrough tree path :=
  h.readsThrough_of_unchanged (by rw [hread, hat]) (by rw [hread]) (by simp [hat])

/-- Every reading by a reader that mirrors the tree is as it should be. -/
theorem Mirrors.readsThrough (h : r.Mirrors tree) (path : FilePath) : r.ReadsThrough tree path := by
  -- A reading changes the reader in one case only: a document that loads and was not kept before.
  -- In every other case the answer of the tree is compared, and the mirroring stays as it was.
  obtain ⟨refusal, hentry⟩ | hentry | ⟨entry, hentry⟩ := tree.lookup_cases path
  · exact h.readsThrough_of_error (by rw [FileTree.documentAt, hentry])
      (by rw [read, hentry])
  · exact h.readsThrough_of_error (by rw [FileTree.documentAt, hentry])
      (by rw [read, hentry])
  · by_cases hdirectory : entry = .directory
    · subst hdirectory
      exact h.readsThrough_of_error
        (by rw [FileTree.documentAt, hentry]; rfl) (by rw [read, hentry])
    by_cases hspecial : entry = .special
    · subst hspecial
      exact h.readsThrough_of_error
        (by rw [FileTree.documentAt, hentry]; rfl) (by rw [read, hentry])
    · obtain hnone | ⟨d, hd, hkept⟩ := h.kept? path
      · obtain ⟨hdocument, hreader⟩ := read_of_not_kept hentry hdirectory hspecial hnone
        cases hat : tree.documentAt path with
        | error e =>
          rw [hat] at hreader
          exact h.readsThrough_of_unchanged hdocument hreader (by simp [hat])
        -- The document is kept under the path just read, and so what was kept already stays kept.
        | ok d =>
          rw [hat] at hreader
          refine ⟨hdocument, ?_, by simp [hat], ?_⟩
          · rw [hreader]
            exact h.keep hat
          · intro d' hd' hkeeps
            rw [hat] at hd'
            cases hd'
            rw [hreader]
            exact kept?_keep hkeeps
      · obtain ⟨hdocument, hreader⟩ := read_of_kept hentry hdirectory hspecial hkept
        refine h.readsThrough_of_unchanged (hdocument.trans hd.symm) hreader ?_
        intro d' hd' _
        rw [hkept, ← hd, hd']

end DocumentReader

end ApiLint
