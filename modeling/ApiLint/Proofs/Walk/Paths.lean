import ApiLint.Proofs.Graph.Described
import ApiLint.Proofs.Walk.Reports

/-!
# A walk takes every path without a repeated key

The visits of a walk follow the paths that it takes, in order of the paths: `Walk.listing` puts both
down as one list. On a well-formed graph, and with rules that only report, the collector of the walk
holds the findings at the ends of these paths, one path after the other. A visit that is nested
deeper than the number of keys never takes place, whatever it would do.
-/

namespace ApiLint

namespace Walk

/-! ### Open trails -/

/-- A trail that a walk follows to its end, given the keys above it. -/
def IsOpen (walker : Walker) : List NodeKey → List Stop → Prop
  | _, [] => True
  | above, stop :: rest =>
    stop.key ∉ above ∧ isCut walker above stop.node = false ∧ IsOpen walker (stop.key :: above) rest

lemma isCut_eq_false_iff {walker : Walker} {above : List NodeKey} {node : Node} :
    isCut walker above node = false
      ↔ (walker.stopAtReferences = true → above ≠ [] → node.name? = none) := by
  cases h : walker.stopAtReferences <;> cases above <;> simp [isCut, h]

/-- Below a root, an open trail has new keys, each once, and the walk meets no component on it if it
stops at references. -/
lemma isOpen_iff_of_ne_nil {walker : Walker} {above : List NodeKey} {stops : List Stop}
    (h : above ≠ []) :
    IsOpen walker above stops
      ↔ (∀ stop ∈ stops, stop.key ∉ above) ∧ (stops.map Stop.key).Nodup
        ∧ (walker.stopAtReferences = true → ∀ stop ∈ stops, stop.node.name? = none) := by
  induction stops generalizing above with
  | nil => simp [IsOpen]
  | cons stop rest ih =>
    simp only [IsOpen, isCut_eq_false_iff, ih (List.cons_ne_nil stop.key above), List.mem_cons,
      not_or, List.map_cons, List.nodup_cons, List.mem_map, not_exists, not_and, forall_eq_or_imp]
    constructor
    · rintro ⟨hkey, hcut, hnew, hnodup, hnone⟩
      exact ⟨⟨hkey, fun s hs => (hnew s hs).2⟩, ⟨fun s hs => (hnew s hs).1, hnodup⟩,
        fun hstop => ⟨hcut hstop h, hnone hstop⟩⟩
    · rintro ⟨⟨hkey, hnew⟩, ⟨hne, hnodup⟩, hnone⟩
      exact ⟨hkey, fun hstop _ => (hnone hstop).1, fun s hs => ⟨hne s hs, hnew s hs⟩, hnodup,
        fun hstop => (hnone hstop).2⟩

/-- From a root, a trail is open if no key is on it twice, and the walk meets no component behind
its start if it stops at references. -/
lemma isOpen_nil_iff {walker : Walker} {stops : List Stop} :
    IsOpen walker [] stops
      ↔ (stops.map Stop.key).Nodup
        ∧ (walker.stopAtReferences = true → ∀ stop ∈ stops.tail, stop.node.name? = none) := by
  cases stops with
  | nil => simp [IsOpen]
  | cons stop rest =>
    simp only [IsOpen, isCut_eq_false_iff, isOpen_iff_of_ne_nil (List.cons_ne_nil stop.key []),
      List.not_mem_nil, not_false_eq_true, ne_eq, not_true_eq_false, false_imp_iff, implies_true,
      true_and, List.mem_singleton, List.map_cons, List.nodup_cons, List.mem_map, not_exists,
      not_and, List.tail_cons, and_assoc]

/-! ### The listing of the paths -/

/-- The paths that a walk takes below a child, to at most the given depth, with the stops at their
ends; the keys above the child are on no path. -/
def listing (walker : Walker) (g : Graph) :
    Nat → List NodeKey → Pointer → Child → List (List Nat × Stop)
  | 0, _, _, _ => []
  | depth + 1, above, pointer, child =>
    match Stop.at? g pointer child with
    | none => []
    | some stop =>
      if stop.key ∈ above ∨ isCut walker above stop.node = true then []
      else
        ([], stop) :: stop.node.children.zipIdx.flatMap fun e =>
          (listing walker g depth (stop.key :: above) (pointer.join e.1.1.segments) e.1.2).map
            fun found => (e.2 :: found.1, found.2)

variable {walker : Walker} {g : Graph}

/-- Nothing is listed where there is no node, or where the walk leaves the node out. -/
lemma listing_eq_nil {depth : Nat} {above : List NodeKey} {pointer : Pointer} {child : Child}
    (h : ∀ stop, Stop.at? g pointer child = some stop →
      stop.key ∈ above ∨ isCut walker above stop.node = true) :
    listing walker g depth above pointer child = [] := by
  cases depth with
  | zero => rfl
  | succ depth =>
    rw [listing]
    split
    · rfl
    · next stop hat => exact if_pos (h stop hat)

section FromStop

variable {depth : Nat} {above : List NodeKey} {pointer : Pointer} {child : Child} {stop : Stop}
  (hat : Stop.at? g pointer child = some stop) (hkey : stop.key ∉ above)
  (hcut : isCut walker above stop.node = false)

include hat hkey hcut

/-- The listing from a stop that the walk does not leave out. -/
lemma listing_eq_cons :
    listing walker g (depth + 1) above pointer child
      = ([], stop) :: stop.node.children.zipIdx.flatMap fun e =>
        (listing walker g depth (stop.key :: above) (pointer.join e.1.1.segments) e.1.2).map
          fun found => (e.2 :: found.1, found.2) := by
  have hnot : ¬(stop.key ∈ above ∨ isCut walker above stop.node = true) := by simp [hkey, hcut]
  rw [listing, hat]
  dsimp only
  rw [if_neg hnot]

/-- The empty path is listed with the stop itself. -/
lemma nil_mem_listing_iff {last : Stop} :
    ([], last) ∈ listing walker g (depth + 1) above pointer child ↔ last = stop := by
  simp [listing_eq_cons hat hkey hcut]

/-- Any other path goes on below the child that its first number names. -/
lemma cons_mem_listing_iff {i : Nat} {path : List Nat} {last : Stop} :
    (i :: path, last) ∈ listing walker g (depth + 1) above pointer child
      ↔ ∃ edge next, stop.node.children[i]? = some (edge, next)
        ∧ (path, last) ∈ listing walker g depth (stop.key :: above) (pointer.join edge.segments)
          next := by
  rw [listing_eq_cons hat hkey hcut]
  simp only [List.mem_cons, Prod.mk.injEq, reduceCtorEq, false_and, false_or, List.mem_flatMap,
    List.mem_map, List.cons.injEq, Prod.exists]
  constructor
  · rintro ⟨edge, next, _, hnext, _, _, hmem, ⟨rfl, rfl⟩, rfl⟩
    exact ⟨edge, next, List.mem_zipIdx_iff_getElem?.mp hnext, hmem⟩
  · rintro ⟨edge, next, hnext, hmem⟩
    exact ⟨edge, next, i, List.mem_zipIdx_iff_getElem?.mpr hnext, path, last, hmem, ⟨rfl, rfl⟩, rfl⟩

end FromStop

/-- One more key on the path leaves fewer keys for the paths below it. -/
lemma card_sdiff_cons_lt {above : List NodeKey} {key : NodeKey} {depth : Nat} (hkey : key ∈ g.keys)
    (hnew : key ∉ above) (h : (g.keys \ above.toFinset).card < depth + 1) :
    (g.keys \ (key :: above).toFinset).card < depth := by
  have hlt : (g.keys \ (key :: above).toFinset).card < (g.keys \ above.toFinset).card := by
    apply Finset.card_lt_card
    rw [Finset.ssubset_iff_of_subset]
    · exact ⟨key, by simp [hkey, hnew], by simp⟩
    · intro other hother
      simp only [List.toFinset_cons, Finset.mem_sdiff, Finset.mem_insert, not_or] at hother ⊢
      exact ⟨hother.1, hother.2.2⟩
  omega

/-- A walk goes deeper than there are keys. -/
lemma card_keys_lt_depthBound (g : Graph) : g.keys.card < depthBound g :=
  Nat.lt_succ_of_le g.card_keys_le

lemma key_mem_keys {pointer : Pointer} {child : Child} {stop : Stop}
    (h : Stop.at? g pointer child = some stop) : stop.key ∈ g.keys :=
  Graph.keyOf_mem_keys (Stop.getElem?_of_at? h)

/-- The listing holds the open trails and no others. -/
lemma mem_listing {depth : Nat} {above : List NodeKey} {pointer : Pointer} {child : Child}
    {path : List Nat} {stop : Stop} (hdepth : (g.keys \ above.toFinset).card < depth) :
    (path, stop) ∈ listing walker g depth above pointer child
      ↔ ∃ stops, trail g pointer child path = some stops ∧ stops.getLast? = some stop
        ∧ IsOpen walker above stops := by
  induction depth generalizing above pointer child path with
  | zero => omega
  | succ depth ih =>
    by_cases hgoes : ∃ first, Stop.at? g pointer child = some first ∧ first.key ∉ above
        ∧ isCut walker above first.node = false
    · obtain ⟨first, hat, hkey, hcut⟩ := hgoes
      -- with the key of `first` above them, fewer keys are left for the paths below
      have hless := card_sdiff_cons_lt (key_mem_keys hat) hkey hdepth
      cases path with
      | nil =>
        rw [nil_mem_listing_iff hat hkey hcut]
        constructor
        · rintro rfl
          exact ⟨[stop], trail_nil_eq_some_iff.mpr ⟨stop, hat, rfl⟩, rfl, hkey, hcut, trivial⟩
        · rintro ⟨stops, htrail, hlast, -⟩
          obtain ⟨first', hfirst', rfl⟩ := trail_nil_eq_some_iff.mp htrail
          rw [hat] at hfirst'
          cases hfirst'
          simpa using hlast.symm
      | cons i path =>
        rw [cons_mem_listing_iff hat hkey hcut]
        constructor
        · rintro ⟨edge, next, hnext, hmem⟩
          obtain ⟨stops, htrail, hlast, hopen⟩ := (ih hless).mp hmem
          refine ⟨first :: stops, trail_cons_eq_some_iff.mpr
            ⟨first, edge, next, stops, hat, hnext, htrail, rfl⟩, ?_, hkey, hcut, hopen⟩
          rw [List.getLast?_cons, hlast]
          rfl
        · rintro ⟨stops, htrail, hlast, hopen⟩
          obtain ⟨first', edge, next, rest, hfirst', hnext, hrest, rfl⟩ :=
            trail_cons_eq_some_iff.mp htrail
          rw [hat] at hfirst'
          cases hfirst'
          obtain ⟨second, more, _, rfl⟩ := exists_cons_of_trail hrest
          rw [List.getLast?_cons_cons] at hlast
          exact ⟨edge, next, hnext, (ih hless).mpr ⟨_, hrest, hlast, hopen.2.2⟩⟩
    · -- the walk does not go on from here, so no trail that begins here is open
      have hnil : listing walker g (depth + 1) above pointer child = [] := by
        refine listing_eq_nil fun first hat => ?_
        by_contra hnot
        rw [not_or, Bool.not_eq_true] at hnot
        exact hgoes ⟨first, hat, hnot⟩
      rw [hnil]
      refine ⟨fun hmem => absurd hmem List.not_mem_nil, ?_⟩
      rintro ⟨stops, htrail, -, hopen⟩
      obtain ⟨first, rest, hat, rfl⟩ := exists_cons_of_trail htrail
      exact absurd ⟨first, hat, hopen.1, hopen.2.1⟩ hgoes

/-- The paths stand in the listing in order, and none stands there twice. -/
lemma pairwise_listing (depth : Nat) (above : List NodeKey) (pointer : Pointer) (child : Child) :
    (listing walker g depth above pointer child).Pairwise fun a b => a.1 < b.1 := by
  induction depth generalizing above pointer child with
  | zero => exact .nil
  | succ depth ih =>
    rw [listing]
    split
    · exact .nil
    · split
      · exact .nil
      · rw [List.pairwise_cons, List.pairwise_flatMap]
        refine ⟨?_, ?_, ?_⟩
        · -- the empty path is before all others
          intro a ha
          simp only [List.mem_flatMap, List.mem_map] at ha
          obtain ⟨e, _, found, _, rfl⟩ := ha
          exact List.nil_lt_cons _ _
        · -- paths through one child are in order by induction
          intro e _
          rw [List.pairwise_map]
          exact (ih ..).imp fun h => List.cons_lt_cons_iff.mpr (.inr ⟨rfl, h⟩)
        · -- paths through two children are in the order of these
          rw [List.pairwise_iff_getElem]
          intro i j hi hj hij a ha b hb
          simp only [List.mem_map, List.getElem_zipIdx] at ha hb
          obtain ⟨_, _, rfl⟩ := ha
          obtain ⟨_, _, rfl⟩ := hb
          exact List.cons_lt_cons_iff.mpr (.inl (by omega))

/-- Of a walker, a listing depends on nothing but whether it stops at references. -/
lemma listing_congr {walker' : Walker}
    (h : walker.stopAtReferences = walker'.stopAtReferences) {depth : Nat} {above : List NodeKey}
    {pointer : Pointer} {child : Child} :
    listing walker g depth above pointer child = listing walker' g depth above pointer child := by
  induction depth generalizing above pointer child with
  | zero => rfl
  | succ depth ih =>
    simp only [listing, isCut, h, ih]
    rfl

/-- A listed stop is at a node of the graph. -/
lemma getElem?_of_mem_listing {depth : Nat} {above : List NodeKey} {pointer : Pointer}
    {child : Child} {e : List Nat × Stop}
    (h : e ∈ listing walker g depth above pointer child) :
    g.nodes[e.2.place]? = some e.2.node := by
  induction depth generalizing above pointer child e with
  | zero => cases h
  | succ depth ih =>
    rw [listing] at h
    cases hat : Stop.at? g pointer child with
    | none =>
      rw [hat] at h
      cases h
    | some stop =>
      rw [hat] at h
      dsimp only at h
      split at h
      · cases h
      · rcases List.mem_cons.mp h with rfl | h
        · exact Stop.getElem?_of_at? hat
        · obtain ⟨child', _, h⟩ := List.mem_flatMap.mp h
          obtain ⟨found, hfound, rfl⟩ := List.mem_map.mp h
          exact ih (e := found) hfound

/-! ### Visits along the listing -/

/-- The findings at the ends of listed paths. -/
def findingsAlong (rules : RuleSet) (found : Rule → Examination) (paths : List (List Nat × Stop)) :
    List Finding :=
  paths.flatMap fun path => findingsAt rules found path.2

variable {found : Rule → Examination}

lemma findingsAlong_listing_cons {above : List NodeKey} {pointer : Pointer} {child : Child}
    {stop : Stop} {depth : Nat} (hat : Stop.at? g pointer child = some stop)
    (hkey : stop.key ∉ above) (hcut : isCut walker above stop.node = false) :
    findingsAlong walker.rules found (listing walker g (depth + 1) above pointer child)
      = findingsAt walker.rules found stop ++ stop.node.children.flatMap fun e =>
        findingsAlong walker.rules found
          (listing walker g depth (stop.key :: above) (pointer.join e.1.segments) e.2) := by
  rw [listing_eq_cons hat hkey hcut]
  simp only [findingsAlong, List.flatMap_cons, List.flatMap_assoc, List.flatMap_map]
  congr 1
  conv_rhs => rw [← List.zipIdx_map_fst 0 stop.node.children, List.flatMap_map]

lemma visitOr_add (deeper : Child → Visit Unit) (n m : Nat) :
    visitOr walker g deeper (n + m) = visitOr walker g (visitOr walker g deeper m) n := by
  induction n with
  | zero => simp [visitOr]
  | succ n ih => rw [Nat.succ_add, visitOr, visitOr, ih]

/-- A node that can be named is recorded, and nothing else is done. -/
lemma noteCycle_reports {node : Node} {name : String} (h : node.describe = .ok name)
    (here pointer : Pointer) (path : List NodeKey) :
    (noteCycle node here).Reports pointer path [] := by
  rw [noteCycle, h]
  exact Visit.Reports.note _

/-- Whatever stands for visits nested deeper than there are keys: a visit reports what is found at
the ends of the listed paths. -/
lemma visitOr_reports (hg : g.IsWellFormed)
    (hrules : ∀ rule ∈ walker.rules.rules, rule.Reports g (found rule))
    (deeper : Child → Visit Unit) {depth : Nat} {above : List NodeKey} {pointer : Pointer}
    {child : Child} (hdepth : (g.keys \ above.toFinset).card < depth)
    (hchild : ∃ result, g.resolve child = .ok result) (hnamed : g.NamesRepeats above child) :
    (visitOr walker g deeper depth child).Reports pointer above
      (findingsAlong walker.rules found (listing walker g depth above pointer child)) := by
  -- every visit puts a new key on the path, so the depth does not run out before the keys do
  induction depth generalizing above pointer child with
  | zero => omega
  | succ depth ih =>
    obtain ⟨⟨place, node⟩, hresolve⟩ := hchild
    have hat : Stop.at? g pointer child = some ⟨pointer, place, node⟩ :=
      Stop.at?_of_resolve hresolve
    have hnode : g.nodes[place]? = some node := Stop.getElem?_of_at? hat
    have hmem : node ∈ g.nodes := Array.mem_of_getElem? hnode
    refine Visit.Reports.get fun s _ hpath => ?_
    simp only [hresolve, hpath]
    split
    · next hkey =>
      obtain ⟨name, hname⟩ := hnamed.describe hresolve hkey
      rw [listing_eq_nil (by simp [hat, Stop.key, hkey])]
      exact noteCycle_reports hname _ pointer above
    · next hkey =>
      split
      · next hcut =>
        rw [listing_eq_nil (by simp [hat, hcut])]
        exact Visit.Reports.pure
      · next hcut =>
        rw [findingsAlong_listing_cons hat hkey (by simpa using hcut), findingsAt,
          List.append_assoc, ← List.nil_append (_ ++ _)]
        refine (checkShape_reports hg hmem pointer above).bind (Visit.Reports.along ?_)
        refine (runSchemaRules_reports hrules hnode pointer _).bind ?_
        refine (runLiteralRules_reports hrules hnode pointer _).bind ?_
        refine Visit.Reports.forM fun (edge, next) he => Visit.Reports.within ?_
        exact ih (card_sdiff_cons_lt (key_mem_keys hat) hkey hdepth) (hg.child node hmem _ he)
          (hnamed.below hresolve hkey he)

/-- What a walk comes to if its visit does nothing but report. -/
lemma findings_walk_of_reports {root : Child} {fs : List Finding}
    (h : (visit walker g (depthBound g) root).Reports walker.base [] fs) :
    (walker.walk g root).findings = .ok fs := by
  obtain ⟨log, hrun⟩ := h ⟨⟨walker.base, [], {}⟩, [], [.debug logger
    (s!"Walking schema graph at {walker.base} with rules "
      ++ Raw.inspectNames walker.rules.names)]⟩ rfl rfl
  simp only [Walker.walk, hrun]
  rfl

/-- The findings of a walk of a well-formed graph are those at the ends of the listed paths. -/
lemma findings_walk (hg : g.IsWellFormed)
    (hrules : ∀ rule ∈ walker.rules.rules, rule.Reports g (found rule)) {root : Child}
    (hroot : ∃ result, g.resolve root = .ok result) (hnamed : g.NamesRepeats [] root) :
    (walker.walk g root).findings = .ok (findingsAlong walker.rules found
      (listing walker g (depthBound g) [] walker.base root)) := by
  apply findings_walk_of_reports
  apply visitOr_reports hg hrules _ _ hroot hnamed
  simpa using card_keys_lt_depthBound g

/-- No visit of such a walk is nested deeper than the number of keys plus one: any act may stand for
the visits that are. -/
lemma walk_reports_findingsAlong (hg : g.IsWellFormed)
    (hrules : ∀ rule ∈ walker.rules.rules, rule.Reports g (found rule)) {root : Child}
    (hroot : ∃ result, g.resolve root = .ok result) (hnamed : g.NamesRepeats [] root) :
    (walker.walk g root).findings = .ok (findingsAlong walker.rules found
        (listing walker g (g.keys.card + 1) [] walker.base root))
      ∧ ∀ deeper : Child → Visit Unit,
        (visitOr walker g deeper (g.keys.card + 1) root).Reports walker.base []
          (findingsAlong walker.rules found
            (listing walker g (g.keys.card + 1) [] walker.base root)) := by
  have hdepth : (g.keys \ ([] : List NodeKey).toFinset).card < g.keys.card + 1 := by simp
  have hreports : ∀ deeper : Child → Visit Unit,
      (visitOr walker g deeper (g.keys.card + 1) root).Reports walker.base []
        (findingsAlong walker.rules found
          (listing walker g (g.keys.card + 1) [] walker.base root)) :=
    fun deeper => visitOr_reports hg hrules deeper hdepth hroot hnamed
  refine ⟨findings_walk_of_reports ?_, hreports⟩
  -- the visit of a walk is nested up to the number of nodes, and so deep enough
  obtain ⟨extra, hextra⟩ := Nat.exists_eq_add_of_le g.card_keys_le
  have hbound : depthBound g = g.keys.card + 1 + extra := by simp only [depthBound]; omega
  rw [visit, hbound, visitOr_add]
  exact hreports _

/-- A listed path leads to the stop listed with it. -/
lemma arrival?_of_mem_listing {depth : Nat} {above : List NodeKey} {pointer : Pointer}
    {child : Child} {e : List Nat × Stop} (hdepth : (g.keys \ above.toFinset).card < depth)
    (h : e ∈ listing walker g depth above pointer child) :
    arrival? g pointer child e.1 = some e.2 := by
  obtain ⟨stops, htrail, hlast, -⟩ := (mem_listing hdepth).mp h
  rw [arrival?, htrail, Option.bind_some, hlast]

/-- The listing of a walk holds the paths that the walk takes. -/
lemma mem_listing_root_iff {depth : Nat} {root : Child} {path : List Nat}
    (hdepth : g.keys.card < depth) :
    (∃ stop, (path, stop) ∈ listing walker g depth [] walker.base root)
      ↔ IsTaken walker g root path := by
  have hdepth : (g.keys \ ([] : List NodeKey).toFinset).card < depth := by simpa using hdepth
  simp only [mem_listing hdepth, isOpen_nil_iff, IsTaken]
  constructor
  · rintro ⟨stop, stops, htrail, -, hnodup, hnone⟩
    exact ⟨stops, htrail, hnodup, hnone⟩
  · rintro ⟨stops, htrail, hnodup, hnone⟩
    obtain ⟨first, rest, _, rfl⟩ := exists_cons_of_trail htrail
    exact ⟨_, _, htrail, List.getLast?_eq_some_getLast (List.cons_ne_nil first rest), hnodup, hnone⟩

end Walk

open Walk in
/-- A walk of a well-formed graph whose nodes can be named, with rules that only report, ends
without a fault. It takes the paths without a repeated key, and without a component below the root
if it stops at references, each once and depth first. Its collector holds the findings at their
ends. No visit is nested deeper than the number of keys plus one: any act may stand for the visits
that are. -/
theorem Walker.walk_reports_along_paths {walker : Walker} {g : Graph} (hg : g.IsWellFormed)
    (hnamed : g.IsDescribed) {found : Rule → Examination}
    (hrules : ∀ rule ∈ walker.rules.rules, rule.Reports g (found rule)) {root : Nat}
    (hroot : root < g.nodes.size) :
    ∃ (paths : List (List Nat)) (findings : List Finding),
      paths.Pairwise (· < ·)
      ∧ (∀ path, path ∈ paths ↔ IsTaken walker g (.node root) path)
      ∧ (findings = paths.flatMap fun path =>
          (arrival? g walker.base (.node root) path).toList.flatMap
            (findingsAt walker.rules found))
      ∧ (walker.walk g (.node root)).findings = .ok findings
      ∧ ∀ deeper : Child → Visit Unit,
          (visitOr walker g deeper (g.keys.card + 1) (.node root)).Reports walker.base []
            findings := by
  have hresolve : ∃ result, g.resolve (.node root) = .ok result :=
    ⟨_, Graph.resolve_node (Array.getElem?_eq_getElem hroot)⟩
  have hdepth : (g.keys \ ([] : List NodeKey).toFinset).card < g.keys.card + 1 := by simp
  let visits := listing walker g (g.keys.card + 1) [] walker.base (.node root)
  obtain ⟨hwalk, hreports⟩ : (walker.walk g (.node root)).findings
      = .ok (findingsAlong walker.rules found visits) ∧ _ :=
    walk_reports_findingsAlong hg hrules hresolve (hnamed.namesRepeats [] _)
  have hfindings : findingsAlong walker.rules found visits
      = (visits.map Prod.fst).flatMap fun path =>
        (arrival? g walker.base (.node root) path).toList.flatMap
          (findingsAt walker.rules found) := by
    rw [findingsAlong, List.flatMap_map]
    refine List.flatMap_congr fun e he => ?_
    rw [arrival?_of_mem_listing hdepth he]
    simp
  refine ⟨visits.map Prod.fst, findingsAlong walker.rules found visits, ?_, ?_, hfindings, hwalk,
    hreports⟩
  · rw [List.pairwise_map]
    exact pairwise_listing ..
  · intro path
    rw [← mem_listing_root_iff (Nat.lt_succ_self _)]
    simp [visits]

/-- Three nodes, the first and the last of which stand for one component: the second is shared by
two properties and leads to the last, and the first is its own item. -/
def Graph.entangled : Graph :=
  ⟨#[{ SchemaNode.blank with
        properties := [("x", .node 1), ("y", .node 1)], items := some (.node 0),
        reference := some "A" },
      { SchemaNode.blank with
        additional := some (.node 2), allOf := [.node 0], enumValues := [.scalar .null .null] },
      { SchemaNode.blank with oneOf := [.node 1], reference := some "A" }]⟩

/-- A rule that reports the component of every node that it is called on. -/
def Rule.naming : Rule :=
  ⟨"Naming", .schema fun _ _ node => Check.report "Naming" (node.name?.getD "inline")⟩

/-- A rule that reports the format of every literal that it is called on. -/
def Rule.tagging : Rule :=
  ⟨"Tagging", .literal fun _ _ _ value => Check.report "Tagging" (value.format?.getD "-")⟩

/-- What the two rules find. -/
def Examination.ofSample (rule : Rule) : Examination :=
  match rule.visitKind with
  | .schema =>
    ⟨fun pointer _ node => [⟨"Naming", pointer, node.name?.getD "inline", .custom⟩],
      fun _ _ _ _ => []⟩
  | .literal =>
    ⟨fun _ _ _ => [],
      fun pointer _ _ value => [⟨"Tagging", pointer, value.format?.getD "-", .custom⟩]⟩

lemma Rule.sample_reports (g : Graph) :
    ∀ rule ∈ [Rule.naming, Rule.tagging], rule.Reports g (Examination.ofSample rule) := by
  intro rule hrule
  simp only [List.mem_cons, List.not_mem_nil, or_false] at hrule
  rcases hrule with rfl | rfl
  · exact .ofSchema fun _ _ _ _ => rfl
  · exact .ofLiteral fun _ _ _ _ _ _ _ => rfl

theorem Walker.walk_reports_along_paths_entangled :
    ∃ (paths : List (List Nat)) (findings : List Finding),
      paths.Pairwise (· < ·)
      ∧ (∀ path, path ∈ paths
          ↔ Walk.IsTaken ⟨⟨[.naming, .tagging]⟩, "#/s", false⟩ .entangled (.node 0) path)
      ∧ (findings = paths.flatMap fun path =>
          (Walk.arrival? .entangled "#/s" (.node 0) path).toList.flatMap
            (Walk.findingsAt ⟨[.naming, .tagging]⟩ Examination.ofSample))
      ∧ ((Walker.mk ⟨[.naming, .tagging]⟩ "#/s" false).walk .entangled (.node 0)).findings
          = .ok findings
      ∧ ∀ deeper : Child → Walk.Visit Unit,
          (Walk.visitOr ⟨⟨[.naming, .tagging]⟩, "#/s", false⟩ .entangled deeper
            (Graph.entangled.keys.card + 1) (.node 0)).Reports "#/s" [] findings :=
  Walker.walk_reports_along_paths (by decide) (by decide) (Rule.sample_reports _) (by decide)

end ApiLint
