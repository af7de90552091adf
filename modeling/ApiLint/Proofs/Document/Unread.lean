import ApiLint.Proofs.Document.Kept
import ApiLint.Proofs.Yaml.Unmade

/-!
# Documents that cannot be read

A document that cannot be read should be reported, whatever is wrong with it. Reading fails
otherwise where a single scalar is at fault, which the text of a document can bring about in few
ways: by an escape that names no code point, by the version of a directive, and by a scalar that its
tag refuses, like a date that no calendar has. Nothing else goes wrong, neither with texts nor with
files, and a reader that keeps documents fails in no other ways than one that does not.
-/

namespace ApiLint

open Yaml (Node)

namespace Yaml

/-- What a text brings about that is not reported. -/
inductive Escapes (text : String) : YamlFault → Prop
  /-- An escape between double quotes gives a number beyond the last code point. -/
  | codePoint {n : Nat} (hroot : root text = .error (.codePoint n)) (h : 0x10ffff < n) :
      Escapes text (.codePoint n)
  /-- The version of a directive has too many digits. -/
  | digits {n : Nat} (hroot : root text = .error (.number (.tooManyDigits n)))
      (h : NumberError.digitLimit < n) : Escapes text (.number (.tooManyDigits n))
  /-- The root has no value because a scalar in it is refused by its tag. -/
  | part {n m : Node} {fault : YamlFault} (hroot : root text = .ok (some n))
      (hvalue : n.toRaw = .error fault) (hpart : n.Part m) (hfaulty : m.IsFaulty fault) :
      Escapes text fault

/-- A text without a value is no YAML, or it brings about something else. -/
lemma escapes_of_value {text : String} {fault : YamlFault} (h : value text = .error fault) :
    fault = .invalid ∨ Escapes text fault := by
  rw [value] at h
  cases hroot : root text with
  | error f =>
    rw [hroot] at h
    cases h
    cases scanFault_of_root hroot with
    | invalid => exact .inl rfl
    | codePoint hn => exact .inr (.codePoint hroot hn)
    | digits hn => exact .inr (.digits hroot hn)
  | ok n? =>
    rw [hroot] at h
    cases n? with
    | none => cases h
    | some n =>
      refine (Node.blames_of_toRaw h).imp_right ?_
      rintro ⟨m, hpart, hfaulty⟩
      exact .part hroot h hpart hfaulty

/-- A text that has a value has a source map. -/
lemma exists_sourceMap_of_value {text : String} {raw : Raw} (h : value text = .ok raw) :
    ∃ m, sourceMap text = .ok m := by
  rw [value] at h
  rw [sourceMap]
  cases hroot : root text with
  | error fault =>
    rw [hroot] at h
    cases h
  | ok n? => cases n? <;> exact ⟨_, rfl⟩

end Yaml

/-- What the system or the text at a path brings about that is not reported: the path cannot be
looked up, or a file stands there with a text whose fault escapes. -/
inductive FileTree.Escapes (tree : FileTree) (path : FilePath) : ReadError → Prop
  | refused {refusal : Refusal} (h : tree.lookup path = .error refusal) :
      Escapes tree path (.refused refusal)
  | scalar {content : List UInt8} {text : String} {fault : YamlFault}
      (hfile : tree.lookup path = .ok (some (.file content)))
      (htext : Utf8.textOf content = .ok text)
      (hescapes : Yaml.Escapes text fault) : Escapes tree path (.scalar fault)

/-- A reading that gives a document, or fails with an error that is reported or has a property. -/
def ReadsOrReports (P : ReadError → Prop) (x : Except ReadError SourceDocument) : Prop :=
  OnlyFails (fun e => e.isReported = true ∨ P e) x

namespace ReadsOrReports

variable {P Q : ReadError → Prop} {x : Except ReadError SourceDocument}

lemma reported {e : ReadError} (h : e.isReported = true) : ReadsOrReports P (.error e) :=
  .error (.inl h)

lemma mono (h : ReadsOrReports P x) (hPQ : ∀ e, P e → Q e) : ReadsOrReports Q x :=
  fun e he => (h e he).imp_right (hPQ e)

end ReadsOrReports

namespace SourceDocument

/-- A text is read, or not a document, or one of its scalars is at fault. -/
lemma readsOrReports_ofTextFrom (origin text : String) :
    ReadsOrReports (fun e => ∃ fault, e = .scalar fault ∧ Yaml.Escapes text fault)
      (ofTextFrom origin text) := by
  refine OnlyFails.bind (.mapError fun fault hfault => ?_) fun value hvalue => ?_
  · have hescapes := Yaml.escapes_of_value hfault
    cases fault with
    | invalid => exact .inl rfl
    | _ => exact .inr ⟨_, rfl, hescapes.resolve_left nofun⟩
  · obtain ⟨m, hm⟩ := Yaml.exists_sourceMap_of_value (mapError_eq_ok_iff.mp hvalue)
    rw [hm]
    dsimp only
    split
    · exact .ok _
    · exact .ok _
    · exact .error (.inl rfl)

end SourceDocument

/-- The document at a path is read or reported, unless something escapes there. -/
lemma FileTree.readsOrReports_documentAt (tree : FileTree) (path : FilePath) :
    ReadsOrReports (tree.Escapes path) (tree.documentAt path) := by
  rw [FileTree.documentAt]
  obtain ⟨refusal, hentry⟩ | hentry | ⟨entry, hentry⟩ := tree.lookup_cases path
  · rw [hentry]
    exact .error (.inr (.refused hentry))
  · rw [hentry]
    exact .reported rfl
  · rw [hentry]
    cases entry with
    | directory | special | unreadable => exact .reported rfl
    | file content =>
      refine OnlyFails.bind (.mapError fun _ _ => .inl rfl) fun text htext => ?_
      refine (SourceDocument.readsOrReports_ofTextFrom _ text).mono ?_
      rintro _ ⟨fault, rfl, hescapes⟩
      exact .scalar hentry (mapError_eq_ok_iff.mp htext) hescapes

namespace DocumentReader

variable {r : DocumentReader} {tree : FileTree} {path : FilePath}

/-- The documents that are kept and the places of values that are kept have the same paths. -/
def IsPaired (r : DocumentReader) : Prop :=
  r.documents.map Prod.fst = r.sourceMaps.map Prod.fst

lemma IsPaired.keep (h : r.IsPaired) (path : FilePath) (d : SourceDocument) :
    (r.keep path d).IsPaired := by
  by_cases hkeeps : r.keeps = true
  · rw [IsPaired, documents_keep hkeeps, sourceMaps_keep hkeeps, List.map_cons, List.map_cons]
    exact congrArg _ h
  · rw [DocumentReader.keep, if_neg hkeeps]
    exact h

/-- What such a reader keeps for a path is a document. -/
lemma IsPaired.exists_of_kept? (h : r.IsPaired) {document : Except ReadError SourceDocument}
    (hkept : r.kept? path = some document) : ∃ d, document = .ok d := by
  rw [kept?] at hkept
  split at hkept
  · obtain ⟨es, hes, rfl⟩ := Option.map_eq_some_iff.mp hkept
    cases hplaces : r.sourceMaps.lookup path with
    | some sourceMap => exact ⟨_, rfl⟩
    | none =>
      have hnone : r.documents.lookup path = none := by
        rw [List.lookup_eq_none_iff] at hplaces ⊢
        intro entry hentry
        have hpath : entry.1 ∈ r.sourceMaps.map Prod.fst := h ▸ List.mem_map_of_mem hentry
        obtain ⟨places, hmem, heq⟩ := List.mem_map.mp hpath
        exact heq ▸ hplaces places hmem
      rw [hnone] at hes
      cases hes
  · cases hkept

/-- A reading by such a reader, whatever stands at the path by now. -/
lemma IsPaired.read (h : r.IsPaired) (tree : FileTree) (path : FilePath) :
    ReadsOrReports (tree.Escapes path) (r.read tree path).document
    ∧ (r.read tree path).reader.IsPaired := by
  have hreports := tree.readsOrReports_documentAt path
  -- A path at which nothing can be read never reaches what the reader keeps.
  have hfailed : ∀ e, tree.documentAt path = .error e → r.read tree path = ⟨.error e, r, []⟩ →
      ReadsOrReports (tree.Escapes path) (r.read tree path).document
        ∧ (r.read tree path).reader.IsPaired := by
    intro e hat hread
    rw [hread]
    exact ⟨hat ▸ hreports, h⟩
  obtain ⟨refusal, hentry⟩ | hentry | ⟨entry, hentry⟩ := tree.lookup_cases path
  · exact hfailed _ (by rw [FileTree.documentAt, hentry]) (by rw [DocumentReader.read, hentry])
  · exact hfailed _ (by rw [FileTree.documentAt, hentry]) (by rw [DocumentReader.read, hentry])
  by_cases hdirectory : entry = .directory
  · subst hdirectory
    exact hfailed _ (by rw [FileTree.documentAt, hentry]; rfl)
      (by rw [DocumentReader.read, hentry])
  by_cases hspecial : entry = .special
  · subst hspecial
    exact hfailed _ (by rw [FileTree.documentAt, hentry]; rfl)
      (by rw [DocumentReader.read, hentry])
  cases hkept : r.kept? path with
  | some document =>
    obtain ⟨hdocument, hreader⟩ := read_of_kept hentry hdirectory hspecial hkept
    obtain ⟨d, rfl⟩ := h.exists_of_kept? hkept
    rw [hdocument, hreader]
    exact ⟨.ok d, h⟩
  | none =>
    obtain ⟨hdocument, hreader⟩ := read_of_not_kept hentry hdirectory hspecial hkept
    rw [hdocument, hreader]
    refine ⟨hreports, ?_⟩
    split
    · exact h.keep path _
    · exact h

end DocumentReader

end ApiLint
