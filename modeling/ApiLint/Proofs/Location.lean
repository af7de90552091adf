import ApiLint.Proofs.Yaml.Places

/-!
# The nearest known place

A place that a source map does not know has the position of the nearest known place around it. The
search climbs: it cuts what stands behind the last slash until it comes to a known place or to the
root. Cutting a place that begins with a slash gives a shorter one of the same kind, so the climb
ends; and since a segment holds no slash when it is written, the climb comes through the places of
the segments before and through no others.
-/

namespace ApiLint

namespace Pointer

/-- A place: the root, or what begins with a slash. -/
def IsPlace (place : String) : Prop := place = "" ∨ place.toList.head? = some '/'

/-- A place lies around another one: it is the same, or the other one goes on behind a slash. -/
def Encloses (outer inner : String) : Prop := inner = outer ∨ ∃ rest, inner = outer ++ "/" ++ rest

/-- The characters before the last slash; all of them if there is none. -/
def cutChars : List Char → List Char
  | [] => []
  | c :: cs => if '/' ∈ cs then c :: cutChars cs else if c = '/' then [] else c :: cs

/-- The place one segment above. -/
def above (place : String) : String := String.ofList (cutChars place.toList)

lemma cutChars_append {last : List Char} (h : '/' ∉ last) (front : List Char) :
    cutChars (front ++ '/' :: last) = front := by
  induction front with
  | nil => simp [cutChars, h]
  | cons c front ih => simp [cutChars, ih]

lemma exists_cut {cs : List Char} (h : '/' ∈ cs) :
    ∃ last, cs = cutChars cs ++ '/' :: last ∧ '/' ∉ last := by
  induction cs with
  | nil => cases h
  | cons c cs ih =>
    by_cases hrest : '/' ∈ cs
    · obtain ⟨last, heq, hnot⟩ := ih hrest
      refine ⟨last, ?_, hnot⟩
      rw [cutChars, if_pos hrest, List.cons_append, ← heq]
    · obtain rfl : '/' = c := (List.mem_cons.mp h).resolve_right hrest
      exact ⟨cs, by simp [cutChars, hrest], hrest⟩

/-- Above the place at the end of segments is the place without the last of them. -/
lemma above_placeOf (segments : List String) (segment : String) :
    above (placeOf (segments ++ [segment])) = placeOf segments := by
  rw [above, toList_placeOf_concat, cutChars_append (slash_notMem_escapeChars _),
    String.ofList_toList]

namespace IsPlace

variable {place : String}

/-- Every place but the root has a last segment, and the place above ends before it. -/
lemma exists_last (h : IsPlace place) (hne : place ≠ "") :
    ∃ last, place = above place ++ "/" ++ last ∧ '/' ∉ last.toList := by
  obtain ⟨last, heq, hnot⟩ := exists_cut (List.mem_of_mem_head? (h.resolve_left hne))
  refine ⟨String.ofList last, ?_, by simpa using hnot⟩
  rw [← String.toList_inj]
  simpa [above] using heq

/-- The place above is a place. -/
lemma above (h : IsPlace place) (hne : place ≠ "") : IsPlace (above place) := by
  obtain ⟨last, heq, -⟩ := h.exists_last hne
  by_cases hroot : Pointer.above place = ""
  · exact .inl hroot
  · right
    have hhead := h.resolve_left hne
    rw [heq, String.toList_append, String.toList_append, List.append_assoc,
      List.head?_append_of_ne_nil _ (by simpa using hroot)] at hhead
    exact hhead

lemma length_above_lt (h : IsPlace place) (hne : place ≠ "") :
    (Pointer.above place).length < place.length := by
  obtain ⟨last, heq, -⟩ := h.exists_last hne
  have hlength := congrArg String.length heq
  have hslash : "/".length = 1 := rfl
  simp only [String.length_append] at hlength
  omega

/-- Around a place lie the place itself and what lies around the place above. -/
lemma enclosing_eq (h : IsPlace place) (hne : place ≠ "") :
    enclosing place = place :: enclosing (Pointer.above place) := by
  obtain ⟨last, heq, hnot⟩ := h.exists_last hne
  have hbeginnings : beginnings place.toList
      = beginnings (Pointer.above place).toList ++ [(Pointer.above place).toList] := by
    conv_lhs => rw [heq]
    simp [beginnings_append, beginnings, beginnings_eq_nil hnot]
  simp [enclosing, hbeginnings]

end IsPlace

@[simp] lemma enclosing_root : enclosing "" = [""] := rfl

/-- The beginnings of a text are what stands before its slashes. -/
lemma mem_beginnings_iff {front cs : List Char} :
    front ∈ beginnings cs ↔ ∃ rest, cs = front ++ '/' :: rest := by
  induction cs generalizing front with
  | nil => simp [beginnings]
  | cons c cs ih =>
    have hfurther : front ∈ (beginnings cs).map (c :: ·)
        ↔ ∃ front', front = c :: front' ∧ ∃ rest, cs = front' ++ '/' :: rest := by
      simp only [List.mem_map, ih]
      grind
    rw [beginnings]
    cases front with
    | nil =>
      split
      · next hc => simp [hc]
      · next hc => simp [hfurther, hc]
    | cons d front =>
      split
      · next hc => rw [List.mem_cons, hfurther]; grind
      · next hc => rw [hfurther]; grind

lemma pairwise_beginnings (cs : List Char) :
    (beginnings cs).Pairwise fun xs ys => xs.length < ys.length := by
  induction cs with
  | nil => exact List.Pairwise.nil
  | cons c cs ih =>
    have hfurther : ((beginnings cs).map (c :: ·)).Pairwise fun xs ys => xs.length < ys.length :=
      ih.map _ fun _ _ h => by simpa using h
    rw [beginnings]
    split
    · refine List.pairwise_cons.mpr ⟨fun xs hxs => ?_, hfurther⟩
      obtain ⟨_, _, rfl⟩ := List.mem_map.mp hxs
      simp
    · exact hfurther

lemma mem_enclosing_iff {outer inner : String} :
    outer ∈ enclosing inner ↔ Encloses outer inner := by
  have hbeginning : (∃ cs, cs ∈ beginnings inner.toList ∧ String.ofList cs = outer)
      ↔ ∃ rest, inner = outer ++ "/" ++ rest := by
    simp only [mem_beginnings_iff]
    constructor
    · rintro ⟨cs, ⟨rest, heq⟩, rfl⟩
      refine ⟨String.ofList rest, ?_⟩
      rw [← String.toList_inj]
      simpa using heq
    · rintro ⟨rest, rfl⟩
      exact ⟨outer.toList, ⟨rest.toList, by simp⟩, String.ofList_toList⟩
  rw [enclosing, List.mem_cons, List.mem_reverse, List.mem_map, hbeginning, Encloses, eq_comm]

/-- Places of one length around a place are the same. -/
lemma Encloses.eq_of_length {place outer other : String} (h : Encloses outer place)
    (h' : Encloses other place) (hlength : outer.length = other.length) : outer = other := by
  have hbegins : ∀ {front : String}, Encloses front place → front.toList <+: place.toList := by
    rintro front (rfl | ⟨rest, rfl⟩) <;> simp
  have hchars : outer.toList.length = other.toList.length := by
    rw [String.length_toList, String.length_toList, hlength]
  rw [← String.toList_inj]
  exact (List.prefix_of_prefix_length_le (hbegins h) (hbegins h') hchars.le).eq_of_length hchars

/-- The places around a place come from the longest to the shortest. -/
lemma pairwise_enclosing (place : String) :
    (enclosing place).Pairwise fun inner outer => outer.length < inner.length := by
  refine List.pairwise_cons.mpr ⟨fun outer houter => ?_, ?_⟩
  · obtain ⟨cs, hcs, rfl⟩ := List.mem_map.mp (List.mem_reverse.mp houter)
    obtain ⟨rest, heq⟩ := mem_beginnings_iff.mp hcs
    rw [← String.length_toList, ← String.length_toList, String.toList_ofList, heq]
    simp
  · rw [List.pairwise_reverse, List.pairwise_map]
    exact (pairwise_beginnings _).imp fun h => by simpa using h

/-- The places around the place at the end of segments are those of the segments before. -/
lemma enclosing_placeOf (segments : List String) :
    enclosing (placeOf segments) = segments.inits.reverse.map placeOf := by
  induction segments using List.reverseRecOn with
  | nil => rfl
  | append_singleton segments segment ih =>
    rw [enclosing_concat, ih, List.inits_append]
    simp

lemma isPlace_placeOf (segments : List String) : IsPlace (placeOf segments) := by
  cases segments with
  | nil => exact .inl rfl
  | cons segment segments => exact .inr (by simp [toList_placeOf])

end Pointer

namespace SourceMap

open Pointer

/-- The position of a place that the map knows. -/
def known? (m : SourceMap) (place : String) : Option SourcePosition :=
  (Fields.find? m place).filter SourcePosition.isKnown

/-- A position is that of the longest known place around a place. -/
def IsNearest (m : SourceMap) (place : String) (p : SourcePosition) : Prop :=
  ∃ outer, Encloses outer place ∧ m.known? outer = some p
    ∧ ∀ longer, Encloses longer place → outer.length < longer.length → m.known? longer = none

/-- The climb from a place, with the places that it tries and the position that it comes to. -/
inductive Climb (m : SourceMap) : String → List String → SourcePosition → Prop
  | known {place : String} {p : SourcePosition} (found : m.known? place = some p) :
      Climb m place [place] p
  | root (unknown : m.known? "" = none) : Climb m "" [""] {}
  | further {place : String} {tried : List String} {p : SourcePosition}
      (unknown : m.known? place = none) (hne : place ≠ "") (rest : Climb m (above place) tried p) :
      Climb m place (place :: tried) p

/-- The first of some places up to a known one, with it. -/
def tried (m : SourceMap) : List String → List String
  | [] => []
  | place :: places => if (m.known? place).isSome then [place] else place :: m.tried places

variable {m : SourceMap} {place : String} {places : List String} {p : SourcePosition}

lemma isKnown_of_known? (h : m.known? place = some p) : p.isKnown = true :=
  (Option.filter_eq_some_iff.mp h).2

lemma positionOf_eq_getD (m : SourceMap) (place : String) :
    m.positionOf place = ((enclosing place).findSome? m.known?).getD {} := rfl

/-- The first known place around a place is the longest. -/
lemma isNearest_of_findSome? (h : (enclosing place).findSome? m.known? = some p) :
    m.IsNearest place p := by
  obtain ⟨longer, outer, shorter, heq, hknown, hnone⟩ := List.findSome?_eq_some_iff.mp h
  refine ⟨outer, mem_enclosing_iff.mp (by simp [heq]), hknown, fun other hother hlength => ?_⟩
  have hmem := mem_enclosing_iff.mpr hother
  have hordered := pairwise_enclosing place
  rw [heq] at hmem hordered
  rcases List.mem_append.mp hmem with hmem | hmem
  · exact hnone other hmem
  · -- what is behind the first known place is no longer than it
    obtain ⟨-, hbehind, -⟩ := List.pairwise_append.mp hordered
    rcases List.mem_cons.mp hmem with rfl | hmem
    · exact absurd hlength (lt_irrefl _)
    · exact absurd hlength (List.rel_of_pairwise_cons hbehind hmem).asymm

lemma findSome?_eq_some_iff :
    (enclosing place).findSome? m.known? = some p ↔ m.IsNearest place p := by
  constructor
  · exact isNearest_of_findSome?
  · rintro ⟨outer, houter, hknown, hlonger⟩
    cases hfound : (enclosing place).findSome? m.known? with
    | none =>
      rw [List.findSome?_eq_none_iff.mp hfound outer (mem_enclosing_iff.mpr houter)] at hknown
      cases hknown
    | some q =>
      obtain ⟨other, hother, hknown', hlonger'⟩ := isNearest_of_findSome? hfound
      have hle : ¬outer.length < other.length := fun hlt => by
        rw [hlonger other hother hlt] at hknown'
        cases hknown'
      have hge : ¬other.length < outer.length := fun hlt => by
        rw [hlonger' outer houter hlt] at hknown
        cases hknown
      obtain rfl := houter.eq_of_length hother (by omega)
      rw [← hknown, hknown']

lemma findSome?_eq_none_iff :
    (enclosing place).findSome? m.known? = none
      ↔ ∀ outer, Encloses outer place → m.known? outer = none := by
  simp only [List.findSome?_eq_none_iff, mem_enclosing_iff]

/-- A known position that is found is the nearest one. -/
lemma positionOf_eq_iff (hp : p.isKnown = true) : m.positionOf place = p ↔ m.IsNearest place p := by
  rw [← findSome?_eq_some_iff, positionOf_eq_getD]
  cases (enclosing place).findSome? m.known? with
  | none =>
    constructor
    · rintro rfl
      cases hp
    · nofun
  | some q => simp

lemma isKnown_positionOf (h : m.positionOf place ≠ {}) : (m.positionOf place).isKnown = true := by
  rw [positionOf_eq_getD] at h ⊢
  cases hfound : (enclosing place).findSome? m.known? with
  | none => simp [hfound] at h
  | some q =>
    obtain ⟨outer, -, hknown⟩ := List.exists_of_findSome?_eq_some hfound
    exact isKnown_of_known? hknown

lemma positionOf_eq_empty_iff :
    m.positionOf place = {} ↔ ∀ outer, Encloses outer place → m.known? outer = none := by
  rw [← findSome?_eq_none_iff]
  constructor
  · intro h
    cases hfound : (enclosing place).findSome? m.known? with
    | none => rfl
    | some q =>
      obtain ⟨outer, -, hknown⟩ := List.exists_of_findSome?_eq_some hfound
      rw [positionOf_eq_getD, hfound] at h
      cases h
      cases isKnown_of_known? hknown
  · intro h
    rw [positionOf_eq_getD, h]
    rfl

/-! ### The climb -/

/-- At a known place the climb is at its end. -/
lemma climb_of_known (h : m.known? place = some p) {q : SourcePosition} :
    m.Climb place places q ↔ places = [place] ∧ q = p := by
  constructor
  · intro hclimb
    cases hclimb with
    | known found => exact ⟨rfl, Option.some.inj (found.symm.trans h)⟩
    | root unknown => rw [unknown] at h; cases h
    | further unknown => rw [unknown] at h; cases h
  · rintro ⟨rfl, rfl⟩
    exact .known h

lemma climb_root (h : m.known? "" = none) : m.Climb "" places p ↔ places = [""] ∧ p = {} := by
  constructor
  · intro hclimb
    cases hclimb with
    | known found => rw [h] at found; cases found
    | root => exact ⟨rfl, rfl⟩
    | further _ hne => exact absurd rfl hne
  · rintro ⟨rfl, rfl⟩
    exact .root h

/-- From an unknown place the climb goes on above it. -/
lemma climb_further (h : m.known? place = none) (hne : place ≠ "") :
    m.Climb place places p ↔ ∃ rest, places = place :: rest ∧ m.Climb (above place) rest p := by
  constructor
  · intro hclimb
    cases hclimb with
    | known found => rw [h] at found; cases found
    | root => exact absurd rfl hne
    | further _ _ rest => exact ⟨_, rfl, rest⟩
  · rintro ⟨rest, rfl, hclimb⟩
    exact .further h hne hclimb

/-- From every place there is one climb. It ends because each place that it tries is shorter than
the one before. -/
lemma climb_iff {place : String} (h : IsPlace place) {places : List String} {p : SourcePosition} :
    m.Climb place places p ↔ places = m.tried (enclosing place) ∧ p = m.positionOf place := by
  cases hknown : m.known? place with
  | some q => simp [climb_of_known hknown, positionOf_eq_getD, enclosing, tried, hknown]
  | none =>
    by_cases hne : place = ""
    · subst hne
      simp [climb_root hknown, positionOf_eq_getD, tried, hknown]
    · have := h.length_above_lt hne
      have hposition : m.positionOf place = m.positionOf (above place) := by
        rw [positionOf_eq_getD, h.enclosing_eq hne, List.findSome?_cons, hknown]
        rfl
      simp only [climb_further hknown hne, climb_iff (h.above hne), h.enclosing_eq hne, tried,
        hknown, hposition]
      grind
termination_by place.length

/-- Looking up a place gives the place asked for, and the position of the longest known place around
it, or no position if none is known. The climb to it always ends. For the pointer of any segments it
tries the pointers of the segments before, from the longest, up to the first known one; so a map
that knows the root gives every pointer a position. -/
theorem locate_finds_nearest (m : SourceMap) :
    (∀ place, (m.locate place).place = place)
    ∧ (∀ place, IsPlace place →
      (∃ tried, ∀ places p, m.Climb place places p
        ↔ places = tried ∧ p = (m.locate (some place)).position)
      ∧ (∀ p, p.isKnown = true → ((m.locate (some place)).position = p ↔ m.IsNearest place p))
      ∧ ((m.locate (some place)).position = {}
        ↔ ∀ outer, Encloses outer place → m.known? outer = none))
    ∧ ∀ segments,
      m.Climb (root.join segments).place
        (m.tried (segments.inits.reverse.map fun front => (root.join front).place))
        (m.locate (some (root.join segments).place)).position
      ∧ ((m.known? "").isSome = true →
        (m.locate (some (root.join segments).place)).position.isKnown = true) := by
  refine ⟨fun _ => rfl, fun place hplace => ⟨⟨_, fun _ _ => climb_iff hplace⟩,
    fun p hp => positionOf_eq_iff hp, positionOf_eq_empty_iff⟩, fun segments => ⟨?_, fun h => ?_⟩⟩
  · simp only [place_root_join]
    exact (climb_iff (isPlace_placeOf segments)).mpr ⟨by rw [enclosing_placeOf], rfl⟩
  · have hroot : Encloses "" (root.join segments).place := by
      rw [← mem_enclosing_iff, place_root_join, enclosing_placeOf]
      exact List.mem_map.mpr ⟨[], by simp, rfl⟩
    refine isKnown_positionOf fun hnone => ?_
    rw [positionOf_eq_empty_iff.mp hnone "" hroot] at h
    cases h

/-- A map in which an entry is empty and a name is the beginning of another one. -/
def sparseMap : SourceMap :=
  [("", ⟨some 1, some 1⟩), ("/a", ⟨some 2, some 3⟩), ("/a/b~1c", {}), ("/a/b", ⟨some 9, some 9⟩)]

theorem locate_finds_nearest_above_empty :
    IsPlace "/a/b~1c//d"
    ∧ (sparseMap.locate (some (root.join ["a", "b/c", "", "d"]).place)).position = ⟨some 2, some 3⟩
    ∧ sparseMap.Climb "/a/b~1c//d" ["/a/b~1c//d", "/a/b~1c/", "/a/b~1c", "/a"] ⟨some 2, some 3⟩
    ∧ sparseMap.IsNearest "/a/b~1c//d" ⟨some 2, some 3⟩
    ∧ (sparseMap.known? "").isSome = true
    ∧ (sparseMap.locate (some (root.join ["x"]).place)).position.isKnown = true := by
  obtain ⟨-, hplaces, hpointers⟩ := locate_finds_nearest sparseMap
  obtain ⟨-, hnearest, -⟩ := hplaces "/a/b~1c//d" (.inr rfl)
  have hposition : (sparseMap.locate (some "/a/b~1c//d")).position = ⟨some 2, some 3⟩ := by
    decide +kernel
  refine ⟨.inr rfl, by decide +kernel, ?_, (hnearest _ rfl).mp hposition, rfl,
    (hpointers ["x"]).2 rfl⟩
  have hclimb := (hpointers ["a", "b/c", "", "d"]).1
  have hplace : (root.join ["a", "b/c", "", "d"]).place = "/a/b~1c//d" := by decide +kernel
  rw [hplace, hposition] at hclimb
  exact hclimb

end SourceMap

end ApiLint
