import ApiLint.Document.Reader
import ApiLint.Proofs.Json.Nodes

/-!
# Reading JSON documents

A JSON text with an object at its root that holds nothing but what YAML shares is read as the value
that it denotes, and the source map knows the places of all parts of the value. Not every JSON text
is: YAML takes a number like `1e5` for a text.
-/

namespace ApiLint.Json

open Yaml

/-- The root that is read of a shared text denotes the value of the text. -/
lemma exists_root {d : Document} (hshared : d.isShared = true)
    (hkeyed : d.raw.isTextKeyed = true) :
    ∃ n, Yaml.root d.text = .ok (some n) ∧ n.Denotes d.raw := by
  obtain ⟨htokens, hfault⟩ := d.tokensOf_text hshared
  simp only [Document.isShared, Bool.and_eq_true] at hshared
  obtain ⟨ts, us, heq, hts, hus⟩ := List.map_eq_append_iff.mp htokens
  obtain ⟨u, rfl, hu⟩ := List.map_eq_singleton_iff.mp hus
  obtain ⟨t, ts, rfl, ht, -⟩ := List.map_eq_cons_iff.mp hts
  have hlength : 4 * (t :: ts).length ≤ Descend.depthBound (Lexer.tokensOf d.text).tokens := by
    rw [heq, Descend.depthBound, List.length_append]
    omega
  obtain ⟨n, hrun, hdenotes⟩ := Value.run_value hshared.1.2 hkeyed
    (d := ⟨(Lexer.tokensOf d.text).tokens, (Lexer.tokensOf d.text).fault,
      Descend.standardHandles, []⟩) heq hts hlength .block
  refine ⟨n, ?_, hdenotes⟩
  rw [Yaml.root]
  exact Descend.ofTokens_eq heq (.inr (.inl ht)) hu hrun

/-- Every JSON text with an object at its root, whose names are distinct in every object, is read as
the value that it denotes, with the places of all parts of the value and no others, if it holds
nothing but what YAML shares. -/
theorem shared_documents_are_read (d : Document) (hkeyed : d.raw.isTextKeyed = true)
    (hshared : d.isShared = true) :
    ∃ source, SourceDocument.ofText d.text = .ok source ∧ source.raw = d.raw
      ∧ (Fields.names source.sourceMap).Nodup
      ∧ ∀ place, place ∈ Fields.names source.sourceMap
        ↔ ∃ segments target, d.raw.Route segments target ∧ place = Pointer.placeOf segments := by
  obtain ⟨n, hroot, hdenotes⟩ := exists_root hshared hkeyed
  have hnodup := Node.nodup_spots hdenotes.agrees hkeyed
  -- The value and the source map come from one node, and the node has the structure of the value.
  have hnames : Fields.names n.sourceMap = (n.spots.map Prod.fst).map Pointer.placeOf := by
    rw [Node.sourceMap_eq hnodup, Node.names_placed]
  have hvalue : Yaml.value d.text = .ok d.raw := by
    rw [Yaml.value, hroot]
    exact hdenotes.toRaw
  have hmap : Yaml.sourceMap d.text = .ok n.sourceMap := by rw [Yaml.sourceMap, hroot]
  refine ⟨⟨Value.memberEntries d.members, n.sourceMap⟩, ?_, rfl, ?_, fun place => ?_⟩
  · rw [SourceDocument.ofText, SourceDocument.ofTextFrom, hvalue, hmap]
    rfl
  · rw [hnames]
    exact hnodup.map Pointer.placeOf_injective
  · rw [hnames]
    constructor
    · intro hplace
      obtain ⟨segments, hsegments, rfl⟩ := List.mem_map.mp hplace
      obtain ⟨s, hs, rfl⟩ := List.mem_map.mp hsegments
      obtain ⟨m, hroute, -⟩ := Node.mem_spots.mp hs
      obtain ⟨target, hroute⟩ := Node.exists_route_of_route hdenotes.agrees hkeyed hroute
      exact ⟨s.1, target, hroute, rfl⟩
    · rintro ⟨segments, target, hroute, rfl⟩
      obtain ⟨m, hroute, -⟩ := Node.exists_route_of_agrees hdenotes.agrees hroute
      exact List.mem_map_of_mem (List.mem_map_of_mem (f := Prod.fst)
        (Node.mem_spots.mpr ⟨m, hroute, rfl⟩ : (segments, m.start) ∈ n.spots))

/-! ### Documents -/

/-- A text as pieces of a string, as far as its characters may stand there as they are. -/
def piecesOf (text : String) : List Piece :=
  text.toList.filterMap fun c => if h : isUnescaped c = true then some (.plain ⟨c, h⟩) else none

/-- A member on one line, with a space behind the colon. -/
def memberOf (name : String) (value : Value) : Member Value :=
  ⟨⟨[], piecesOf name, []⟩, [.space], value, []⟩

/-- A document with numbers and escapes. -/
def numberDocument : Document where
  before := []
  members := [memberOf "openapi" (.string (piecesOf "3.0.0")),
    memberOf "a/b" (.array
      [⟨[], .number ⟨true, .positive 0 [.ofNat 2], none, none⟩, []⟩,
        ⟨[.lineFeed], .number ⟨false, .zero, some ⟨.ofNat 5, []⟩,
          some ⟨true, some false, ⟨.ofNat 3, []⟩⟩⟩, []⟩,
        ⟨[.space], .string [.escape .tab, .unit ⟨⟨0, false⟩, ⟨0, false⟩, ⟨14, true⟩, ⟨9, false⟩⟩],
          []⟩]
      [])]
  close := [.carriageReturn, .lineFeed]
  after := []

theorem shared_documents_are_read_numbers :
    numberDocument.text
        = "\x7b\"openapi\": \"3.0.0\",\"a/b\": [-12,\n0.5E+3, \"\\t\\u00E9\"]\r\n\x7d"
      ∧ numberDocument.raw.isTextKeyed = true ∧ numberDocument.isShared = true
      ∧ ∃ source, SourceDocument.ofText numberDocument.text = .ok source
        ∧ source.raw = numberDocument.raw
        ∧ (Fields.names source.sourceMap).Nodup
        ∧ ∀ place, place ∈ Fields.names source.sourceMap ↔ ∃ segments target,
          numberDocument.raw.Route segments target ∧ place = Pointer.placeOf segments :=
  ⟨by decide +kernel, by decide +kernel, by decide +kernel,
    shared_documents_are_read numberDocument (by decide +kernel) (by decide +kernel)⟩

/-- A document with a number whose exponent has no sign. -/
def powerDocument : Document where
  before := []
  members := [memberOf "default"
    (.number ⟨false, .positive 0 [], none, some ⟨false, none, ⟨.ofNat 5, []⟩⟩⟩)]
  close := []
  after := []

/-- A mapping whose only entry is a text. -/
def isTextEntry (name text : String) : Raw → Bool
  | .dict [(.str key, .str value)] => key == name && value == text
  | _ => false

lemma eq_of_isTextEntry {name text : String} {raw : Raw} (h : isTextEntry name text raw = true) :
    raw = .dict [(.str name, .str text)] := by
  unfold isTextEntry at h
  split at h
  · rw [Bool.and_eq_true, beq_iff_eq, beq_iff_eq] at h
    obtain ⟨rfl, rfl⟩ := h
    rfl
  · cases h

/-- The number `1e5` is read as a text. -/
theorem power_is_read_as_text :
    powerDocument.text = "\x7b\"default\": 1e5\x7d" ∧ powerDocument.raw.isTextKeyed = true
      ∧ powerDocument.raw = .dict [(.str "default", .float (.ofDecimal false 1 5))]
      ∧ ∃ source, SourceDocument.ofText powerDocument.text = .ok source
        ∧ source.raw = .dict [(.str "default", .str "1e5")] := by
  have hread : (SourceDocument.ofText powerDocument.text).toOption.any
      (fun source => isTextEntry "default" "1e5" source.raw) = true := by
    decide +kernel
  obtain ⟨source, hsource, hentry⟩ := exists_ok_of_any hread
  exact ⟨by decide +kernel, by decide +kernel, rfl, source, hsource, eq_of_isTextEntry hentry⟩

end ApiLint.Json
