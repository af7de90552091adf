import ApiLint.Proofs.Document.Renaming
import ApiLint.Proofs.Document.Sound
import ApiLint.Proofs.Raw.Places

/-!
# Pointers read back

A segment is escaped by two replacements in the whole of it, one after the other, and the escapes
are undone by two replacements in the opposite order. Whatever the segment holds, it comes back, and
so do the segments behind a pointer. The pointer of a component, taken as a reference, leads to the
component.
-/

namespace ApiLint

namespace Text

/-- Puts characters in the place of each occurrence of a character. -/
def replaceChar (c : Char) (written : List Char) (cs : List Char) : List Char :=
  cs.flatMap fun d => if d = c then written else [d]

/-- Puts a character in the place of each occurrence of two others in a row, from the left. -/
def replacePair (first second c : Char) : List Char → List Char
  | x :: y :: cs =>
    if x = first ∧ y = second then c :: replacePair first second c cs
    else x :: replacePair first second c (y :: cs)
  | cs => cs

variable {first second c x y : Char} {cs : List Char}

@[simp] lemma replaceChar_nil (c : Char) (written : List Char) :
    replaceChar c written [] = [] := rfl

lemma replaceChar_cons (c : Char) (written : List Char) (x : Char) (cs : List Char) :
    replaceChar c written (x :: cs)
      = (if x = c then written else [x]) ++ replaceChar c written cs :=
  List.flatMap_cons

@[simp] lemma replacePair_nil : replacePair first second c [] = [] := rfl

@[simp] lemma replacePair_pair :
    replacePair first second c (first :: second :: cs) = c :: replacePair first second c cs := by
  rw [replacePair, if_pos ⟨rfl, rfl⟩]

/-- A character that begins no pair stays. -/
lemma replacePair_cons (h : x = first → cs.head? ≠ some second) :
    replacePair first second c (x :: cs) = x :: replacePair first second c cs := by
  cases cs with
  | nil => rfl
  | cons y cs =>
    rw [replacePair, if_neg]
    rintro ⟨hx, rfl⟩
    exact h hx rfl

/-- No other character comes to the front. -/
lemma head?_replacePair_ne (hx : x ≠ c) (h : cs.head? ≠ some x) :
    (replacePair first second c cs).head? ≠ some x := by
  cases cs with
  | nil => exact h
  | cons y cs =>
    by_cases hpair : y = first ∧ cs.head? = some second
    · obtain ⟨rfl, hsecond⟩ := hpair
      obtain ⟨rest, rfl⟩ := List.head?_eq_some_iff.mp hsecond
      simpa using hx.symm
    · rw [replacePair_cons fun hy hsecond => hpair ⟨hy, hsecond⟩]
      exact h

end Text

namespace Pointer

/-- The written form of a segment: `~0` in the place of each `~`, and then `~1` in the place of each
slash. -/
def escapeInTurn (segment : String) : String :=
  String.ofList (Text.replaceChar '/' ['~', '1'] (Text.replaceChar '~' ['~', '0'] segment.toList))

/-- The segment of a written form: a slash in the place of each `~1`, and then `~` in the place of
each `~0`. -/
def unescapeInTurn (written : String) : String :=
  String.ofList (Text.replacePair '~' '0' '~' (Text.replacePair '~' '1' '/' written.toList))

lemma escapeChars_eq (cs : List Char) :
    escapeChars cs = Text.replaceChar '/' ['~', '1'] (Text.replaceChar '~' ['~', '0'] cs) := by
  fun_induction escapeChars cs with
  | case1 => rfl
  | case2 cs ih => simp [Text.replaceChar_cons, ih]
  | case3 cs ih => simp [Text.replaceChar_cons, ih]
  | case4 c cs htilde hslash ih =>
    have hne : c ≠ '~' := fun h => htilde h
    have hne' : c ≠ '/' := fun h => hslash h
    simp [Text.replaceChar_cons, ih, hne, hne']

/-- Undoing the escapes of slashes first does not bring a `0` behind a `~`, so no escape appears
that was not there. -/
lemma unescapeChars_eq (cs : List Char) :
    unescapeChars cs = Text.replacePair '~' '0' '~' (Text.replacePair '~' '1' '/' cs) := by
  fun_induction unescapeChars cs with
  | case1 => rfl
  | case2 cs ih =>
    have hkept : Text.replacePair '~' '1' '/' ('~' :: '0' :: cs)
        = '~' :: '0' :: Text.replacePair '~' '1' '/' cs := by
      rw [Text.replacePair_cons (by simp), Text.replacePair_cons (by simp)]
    rw [hkept, Text.replacePair_pair, ih]
  | case3 cs ih => rw [Text.replacePair_pair, Text.replacePair_cons (by simp), ih]
  | case4 c cs hzero hone ih =>
    have hsecond : ∀ {x : Char}, (∀ rest, c = '~' → cs = x :: rest → False) →
        c = '~' → cs.head? ≠ some x := by
      intro x hnot hc hhead
      obtain ⟨rest, hrest⟩ := List.head?_eq_some_iff.mp hhead
      exact hnot rest hc hrest
    rw [Text.replacePair_cons (hsecond hone), Text.replacePair_cons, ih]
    exact fun hc => Text.head?_replacePair_ne (by decide) (hsecond hzero hc)

lemma escape_eq_escapeInTurn : escape = escapeInTurn := by
  funext segment
  rw [escape, escapeInTurn, escapeChars_eq]

lemma unescape_eq_unescapeInTurn : unescape = unescapeInTurn := by
  funext written
  rw [unescape, unescapeInTurn, unescapeChars_eq]

/-- The segments of a pointer behind another one: what stands between the slashes there, with the
escapes undone. -/
def segmentsBehind? (pointer base : Pointer) : Option (List String) :=
  (Components.textAfter? base.toList pointer.toList).map fun rest =>
    (Text.splitChars '/' rest).tail.map fun written => unescape (String.ofList written)

lemma segmentsBehind?_join {base : Pointer} (h : base.isEmpty = false) (segments : List String) :
    (base.join segments).segmentsBehind? base = some segments := by
  rw [segmentsBehind?, join_eq_append h, String.toList_append, Components.textAfter?_append,
    Option.map_some, splitChars_placeOf, List.tail_cons, List.map_map]
  refine congrArg some ((List.map_congr_left fun s _ => ?_).trans (List.map_id segments))
  exact unescape_escape s

lemma join_injective {base : Pointer} (h : base.isEmpty = false) :
    Function.Injective base.join := by
  intro xs ys heq
  have hbehind : (base.join xs).segmentsBehind? base = (base.join ys).segmentsBehind? base := by
    rw [heq]
  rw [segmentsBehind?_join h, segmentsBehind?_join h] at hbehind
  exact Option.some.inj hbehind

end Pointer

namespace Components

variable {cs : Components} {loaded d : LoadedDocument}

/-- What is loaded stands at the pointers of names of components. -/
def StandsIn (cs : Components) (loaded : LoadedDocument) : Prop :=
  ∀ c ∈ loaded.components, c.1 ∈ cs.names ∧ c.2.pointer = cs.pointerTo c.1

lemma StandsIn.addComponent {key body : Raw} (h : cs.StandsIn loaded) (hkey : key.text ∈ cs.names)
    {next : LoadedDocument} (hnext : cs.addComponent loaded key body = .ok next) :
    cs.StandsIn next := by
  obtain ⟨target, es, node, -, -, rfl⟩ := addComponent_eq_ok_iff.mp hnext
  intro c hc
  rcases Fields.mem_insert hc with hc | rfl
  · exact h c hc
  · exact ⟨hkey, rfl⟩

lemma StandsIn.load {es : List (Raw × Raw)} (h : cs.StandsIn loaded)
    (hes : ∀ e ∈ es, e ∈ cs.entries) (hload : cs.load es loaded = .ok d) : cs.StandsIn d := by
  induction es generalizing loaded with
  | nil =>
    cases hload
    exact h
  | cons e es ih =>
    obtain ⟨next, hnext, hrest⟩ := load_cons_eq_ok hload
    obtain ⟨he, hes⟩ := List.forall_mem_cons.mp hes
    exact ih (h.addComponent (List.mem_map_of_mem he) hnext) hes hrest

/-- The pointer of a component is a reference to it. -/
lemma resolve_pointerTo {name : String} (h : name ∈ cs.names) (place : Pointer) :
    cs.resolve place (.str (cs.pointerTo name)) = .ok name := by
  simp only [resolve, referenceName?_pointerTo, if_pos h]

end Components

namespace LoadedDocument

/-- Escapes are undone, whatever they stand in: written by two replacements in turn, they are undone
by two in the opposite order. A pointer that is not empty tells the segments behind it, and so they
are the same only if the pointers are. In every document that loads, each component is where its own
pointer leads as a reference, and so no two components have one pointer. -/
theorem pointers_lead_back :
    (Pointer.escape = Pointer.escapeInTurn ∧ Pointer.unescape = Pointer.unescapeInTurn
      ∧ ∀ s, Pointer.unescape (Pointer.escape s) = s ∧ '/' ∉ (Pointer.escape s).toList)
    ∧ (∀ base : Pointer, base.isEmpty = false → Function.Injective base.join
      ∧ ∀ segments, (base.join segments).segmentsBehind? base = some segments)
    ∧ ∀ document d, ofRaw document = .ok d → ∃ cs, Components.ofDocument document = .ok cs
      ∧ (∀ name, name ∈ cs.names ↔ ∃ component, Fields.find? d.components name = some component)
      ∧ ∀ name component, Fields.find? d.components name = some component →
        (∀ place, cs.resolve place (.str component.pointer) = .ok name)
        ∧ ∀ other component', Fields.find? d.components other = some component' →
          component'.pointer = component.pointer → other = name := by
  refine ⟨⟨Pointer.escape_eq_escapeInTurn, Pointer.unescape_eq_unescapeInTurn, fun s => ?_⟩,
    fun base hbase => ⟨Pointer.join_injective hbase, Pointer.segmentsBehind?_join hbase⟩,
    fun document d h => ?_⟩
  · refine ⟨Pointer.unescape_escape s, ?_⟩
    rw [Pointer.escape, String.toList_ofList]
    exact Pointer.slash_notMem_escapeChars s.toList
  · obtain ⟨cs, hcs, -, hload⟩ := LoadedDocument.ofRaw_eq_ok_iff.mp h
    -- Along the loading every component stands in the listing under the pointer made from its name,
    -- and such a pointer resolves to that name.
    have hempty : cs.StandsIn { version := cs.version } := by simp [Components.StandsIn]
    have hstands := hempty.load (fun _ he => he) hload
    have hresolves : ∀ name component, Fields.find? d.components name = some component →
        ∀ place, cs.resolve place (.str component.pointer) = .ok name := by
      intro name component hfind place
      obtain ⟨hmem, hpointer⟩ := hstands _ (Fields.mem_of_find? hfind)
      rw [hpointer]
      exact Components.resolve_pointerTo hmem place
    refine ⟨cs, hcs, fun name => ⟨fun hmem => ?_, ?_⟩, fun name component hfind =>
      ⟨hresolves name component hfind, fun other component' hfind' heq => ?_⟩⟩
    · have hname : name ∈ d.names := (Components.names_load hload).1 hmem
      rw [← Option.isSome_iff_exists, Option.isSome_iff_ne_none, ne_eq, Fields.find?_eq_none_iff]
      exact fun hnot => hnot hname
    · rintro ⟨component, hfind⟩
      exact (hstands _ (Fields.mem_of_find? hfind)).1
    · have hother := hresolves other component' hfind' ""
      rw [heq, hresolves name component hfind ""] at hother
      exact (Except.ok.inj hother).symm

/-- Components whose names differ as little as escapes do, and one whose key is no text. -/
def escapedSchemas : Entries :=
  [(.str "a/b", .ofFields [("type", .str "integer")]),
    (.str "a~1b", .ofFields [("$ref", .str "#/components/schemas/a~1b")]),
    (.str "a~01b", .ofFields [("type", .str "string")]), (.int 200, .dict [])]

theorem pointers_lead_back_escaped :
    ∃ d, ofRaw (.ofFields [("openapi", .str "3.0.0"),
        ("components", .ofFields [("schemas", .dict escapedSchemas)])]) = .ok d
      ∧ (∀ name ∈ ["a/b", "a~1b", "a~01b", "200"], ∃ component,
        Fields.find? d.components name = some component
          ∧ Components.resolve ⟨⟨.openapi, 3, 0, 0⟩, escapedSchemas⟩ "#" (.str component.pointer)
            = .ok name)
      ∧ ∀ slashed escaped, Fields.find? d.components "a/b" = some slashed →
        Fields.find? d.components "a~1b" = some escaped → slashed.pointer ≠ escaped.pointer := by
  obtain ⟨d, h⟩ : ∃ d, ofRaw (.ofFields [("openapi", .str "3.0.0"),
      ("components", .ofFields [("schemas", .dict escapedSchemas)])]) = .ok d :=
    exists_ok_of_isSome (by decide +kernel)
  obtain ⟨-, -, hdocuments⟩ := pointers_lead_back
  obtain ⟨cs, hcs, hnames, hback⟩ := hdocuments _ d h
  obtain rfl : ⟨⟨.openapi, 3, 0, 0⟩, escapedSchemas⟩ = cs := Except.ok.inj hcs
  refine ⟨d, h, fun name hname => ?_, fun slashed escaped hslashed hescaped heq => ?_⟩
  · have hmem : name ∈ Components.names ⟨⟨.openapi, 3, 0, 0⟩, escapedSchemas⟩ := hname
    obtain ⟨component, hfind⟩ := (hnames name).mp hmem
    exact ⟨component, hfind, (hback name component hfind).1 "#"⟩
  · have hsame := (hback "a~1b" escaped hescaped).2 "a/b" slashed hslashed heq
    exact absurd hsame (by decide)

end LoadedDocument

end ApiLint
