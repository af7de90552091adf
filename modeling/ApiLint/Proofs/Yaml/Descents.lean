import ApiLint.Yaml.Node
import Mathlib.Data.List.Basic

/-!
# Descending into flow collections

What the descent makes of the tokens of scalars and of flow collections without anchors and tags:
one lemma for each kind of node, and for each kind of part of a collection.
-/

namespace ApiLint.Yaml.Descend

variable {α β : Type} {m : Descend α} {f : α → Descend β} {a : α} {d d' : Descent}
  {t : PlacedToken} {ts : List PlacedToken} {n : Nat}

lemma run_bind_of_ok (h : m.run d = .ok (a, d')) : (m >>= f).run d = (f a).run d' := by
  rw [StateT.run_bind, h]
  rfl

/-! ### Tokens -/

lemma run_peek (h : d.tokens = t :: ts) : peek.run d = .ok (t, d) := by
  cases d
  cases h
  rfl

lemma run_take (h : d.tokens = t :: ts) : take.run d = .ok (t, { d with tokens := ts }) := by
  rw [take, run_bind_of_ok (run_peek h)]
  change Except.ok (t, { d with tokens := d.tokens.tail }) = _
  rw [h]
  rfl

lemma run_at? (h : d.tokens = t :: ts) (tokens : List Token) :
    (at? tokens).run d = .ok (tokens.contains t.token, d) := by
  rw [at?, run_bind_of_ok (run_peek h)]
  rfl

lemma run_expect (h : d.tokens = t :: ts) :
    (expect t.token).run d = .ok (t, { d with tokens := ts }) := by
  rw [expect, run_bind_of_ok (run_take h), if_pos (beq_self_eq_true _)]
  rfl

/-! ### Nodes -/

/-- A token begins a node without properties in a flow collection. -/
def StartsNode (token : Token) : Prop :=
  token = .flowSequenceStart ∨ token = .flowMappingStart ∨ ∃ text plain, token = .scalar text plain

/-- The three ways on in a node, behind its first token. -/
lemma run_node (h : d.tokens = t :: ts) (hstarts : StartsNode t.token) (setting : Setting) :
    (node setting (n + 1)).run d = (match t.token with
      | .scalar text plain =>
        pure (.scalar (if plain then Tag.ofPlain text else .str) text t.start)
      | .flowSequenceStart => do return .sequence .seq (← flowItems n true) t.start
      | .flowMappingStart => do return .mapping .map (← flowEntries n true) t.start
      | _ => throw .invalid : Descend Node).run { d with tokens := ts } := by
  have hproperties : (properties 2 {}).run d = .ok ({}, d) := by
    rw [properties, run_bind_of_ok (run_peek h)]
    rcases hstarts with ht | ht | ⟨text, plain, ht⟩ <;> rw [ht] <;> rfl
  rw [node, run_bind_of_ok (run_peek h)]
  rcases hstarts with ht | ht | ⟨text, plain, ht⟩
  all_goals
    simp only [ht]
    rw [run_bind_of_ok hproperties, run_bind_of_ok (run_peek h)]
    simp only [ht]
    rw [run_bind_of_ok (run_take h)]
    rfl

lemma run_scalar {text : String} {plain : Bool} (h : d.tokens = t :: ts)
    (ht : t.token = .scalar text plain) (setting : Setting) :
    (node setting (n + 1)).run d = .ok (.scalar (if plain then Tag.ofPlain text else .str) text
      t.start, { d with tokens := ts }) := by
  rw [run_node h (.inr (.inr ⟨_, _, ht⟩)), ht]
  rfl

lemma run_sequence {items : List Node} (h : d.tokens = t :: ts)
    (ht : t.token = .flowSequenceStart)
    (hitems : (flowItems n true).run { d with tokens := ts } = .ok (items, d'))
    (setting : Setting) :
    (node setting (n + 1)).run d = .ok (.sequence .seq items t.start, d') := by
  rw [run_node h (.inl ht), ht]
  dsimp only
  rw [run_bind_of_ok hitems]
  rfl

lemma run_mapping {entries : List (Node × Node)} (h : d.tokens = t :: ts)
    (ht : t.token = .flowMappingStart)
    (hentries : (flowEntries n true).run { d with tokens := ts } = .ok (entries, d'))
    (setting : Setting) :
    (node setting (n + 1)).run d = .ok (.mapping .map entries t.start, d') := by
  rw [run_node h (.inr (.inl ht)), ht]
  dsimp only
  rw [run_bind_of_ok hentries]
  rfl

/-- A node that is there is read. -/
lemma run_nodeUnless (h : d.tokens = t :: ts) {ends : List Token}
    (hends : ends.contains t.token = false) (setting : Setting) (mark : Mark) :
    (nodeUnless setting ends mark (n + 1)).run d = (node setting n).run d := by
  rw [nodeUnless, run_bind_of_ok (run_at? h ends), hends]
  rfl

/-- The value behind its indicator is read. -/
lemma run_entryValue {u : PlacedToken} (h : d.tokens = t :: u :: ts) (ht : t.token = .value)
    {ends : List Token} (hends : ends.contains u.token = false) (setting : Setting) :
    (entryValue setting ends (n + 2)).run d
      = (node setting n).run { d with tokens := u :: ts } := by
  rw [entryValue, run_bind_of_ok (run_at? h _), ht]
  change (do let t ← take; nodeUnless setting ends t.stop (n + 1) : Descend Node).run d = _
  rw [run_bind_of_ok (run_take h), run_nodeUnless rfl hends]

/-! ### Parts of collections -/

/-- The tokens in front of all parts of a collection but the first: a comma. -/
def IsEntry (first : Bool) (commas : List PlacedToken) : Prop :=
  if first then commas = [] else ∃ t, commas = [t] ∧ t.token = .flowEntry

lemma run_items_end (h : d.tokens = t :: ts) (ht : t.token = .flowSequenceEnd) (first : Bool) :
    (flowItems (n + 1) first).run d = .ok ([], { d with tokens := ts }) := by
  rw [flowItems, run_bind_of_ok (run_at? h _), ht]
  change (do let _ ← take; return [] : Descend (List Node)).run d = _
  rw [run_bind_of_ok (run_take h)]
  rfl

lemma run_entries_end (h : d.tokens = t :: ts) (ht : t.token = .flowMappingEnd) (first : Bool) :
    (flowEntries (n + 1) first).run d = .ok ([], { d with tokens := ts }) := by
  rw [flowEntries, run_bind_of_ok (run_at? h _), ht]
  change (do let _ ← take; return [] : Descend (List (Node × Node))).run d = _
  rw [run_bind_of_ok (run_take h)]
  rfl

/-- In front of a part the collection does not end, and its comma is taken. -/
lemma run_behind_comma {commas : List PlacedToken} {first : Bool} (close : Token)
    (h : d.tokens = commas ++ t :: ts) (hcommas : IsEntry first commas)
    (hclose : [close].contains t.token = false) (hcomma : close ≠ .flowEntry)
    (closed part : Descend α) :
    (at? [close] >>= fun b => if b then closed
      else if !first then expect .flowEntry >>= fun _ => part else part).run d
      = part.run { d with tokens := t :: ts } := by
  cases first with
  | true =>
    cases (show commas = [] from hcommas)
    have h : d.tokens = t :: ts := h
    rw [run_bind_of_ok (run_at? h _), hclose, ← h]
    rfl
  | false =>
    obtain ⟨u, rfl, hu⟩ : ∃ u, commas = [u] ∧ u.token = .flowEntry := hcommas
    have hexpect := run_expect h
    have hother : [close].contains u.token = false := by
      rw [hu]
      simpa using hcomma.symm
    rw [hu] at hexpect
    rw [run_bind_of_ok (run_at? h _), hother]
    exact run_bind_of_ok hexpect

/-- An item of a sequence. -/
lemma run_item {commas : List PlacedToken} {first : Bool} {item : Node} {items : List Node}
    {d'' : Descent} (h : d.tokens = commas ++ t :: ts) (hcommas : IsEntry first commas)
    (hstarts : StartsNode t.token)
    (hitem : (node .flow n).run { d with tokens := t :: ts } = .ok (item, d'))
    (hitems : (flowItems n false).run d' = .ok (items, d'')) :
    (flowItems (n + 1) first).run d = .ok (item :: items, d'') := by
  have hend : [Token.flowSequenceEnd].contains t.token = false := by
    rcases hstarts with ht | ht | ⟨text, plain, ht⟩ <;> rw [ht] <;> rfl
  have hkey : [Token.key].contains t.token = false := by
    rcases hstarts with ht | ht | ⟨text, plain, ht⟩ <;> rw [ht] <;> rfl
  rw [flowItems]
  refine (run_behind_comma _ h hcommas hend nofun _ _).trans ?_
  rw [run_bind_of_ok (run_at? rfl _), hkey, if_neg Bool.false_ne_true,
    run_bind_of_ok (run_at? rfl _), hend, if_neg Bool.false_ne_true, run_bind_of_ok hitem,
    run_bind_of_ok hitems]
  rfl

/-- An entry of a mapping: a scalar between its indicators, and a value. -/
lemma run_entry {commas : List PlacedToken} {first : Bool} {k s v : PlacedToken} {text : String}
    {plain : Bool} {value : Node} {entries : List (Node × Node)} {d'' : Descent}
    (h : d.tokens = commas ++ k :: s :: v :: t :: ts) (hcommas : IsEntry first commas)
    (hk : k.token = .key) (hs : s.token = .scalar text plain) (hv : v.token = .value)
    (hstarts : StartsNode t.token)
    (hvalue : (node .flow n).run { d with tokens := t :: ts } = .ok (value, d'))
    (hentries : (flowEntries (n + 2) false).run d' = .ok (entries, d'')) :
    (flowEntries (n + 3) first).run d
      = .ok ((.scalar (if plain then Tag.ofPlain text else .str) text s.start, value) :: entries,
        d'') := by
  have hends : [Token.flowEntry, .flowMappingEnd].contains t.token = false := by
    rcases hstarts with ht | ht | ⟨text, plain, ht⟩ <;> rw [ht] <;> rfl
  have hentryValue :=
    run_entryValue (n := n) (d := { d with tokens := v :: t :: ts }) rfl hv hends .flow
  rw [flowEntries]
  refine (run_behind_comma .flowMappingEnd h hcommas (by rw [hk]; rfl) nofun _ _).trans ?_
  rw [run_bind_of_ok (run_at? rfl _), hk]
  refine (run_bind_of_ok (run_take rfl)).trans ?_
  rw [run_bind_of_ok ((run_nodeUnless rfl (by rw [hs]; rfl) _ _).trans (run_scalar rfl hs _))]
  refine (run_bind_of_ok (hentryValue.trans hvalue)).trans ?_
  rw [run_bind_of_ok hentries]
  rfl

/-! ### Documents -/

/-- The only node of a document without marks, up to the end of the stream. -/
lemma ofTokens_eq {tokens : List PlacedToken} {fault : Option YamlFault} {root : Node}
    {u : PlacedToken} (h : tokens = t :: ts) (hstarts : StartsNode t.token)
    (hu : u.token = .streamEnd)
    (hroot : (node .block (depthBound tokens)).run ⟨tokens, fault, standardHandles, []⟩
      = .ok (root, ⟨[u], fault, standardHandles, []⟩)) :
    Node.ofTokens tokens fault = .ok (some root) := by
  have hend : [Token.streamEnd].contains t.token = false := by
    rcases hstarts with ht | ht | ⟨text, plain, ht⟩ <;> rw [ht] <;> rfl
  have hcontent : (content tokens).run ⟨tokens, fault, [], []⟩
      = .ok (root, ⟨[u], fault, standardHandles, []⟩) := by
    rw [content, run_bind_of_ok (run_peek h)]
    rw [← hroot]
    rcases hstarts with ht | ht | ⟨text, plain, ht⟩ <;> rw [ht] <;> rfl
  have hexpect : (expect .streamEnd).run ⟨[u], fault, standardHandles, []⟩
      = .ok (u, ⟨[], fault, standardHandles, []⟩) := by
    rw [← hu]
    exact run_expect rfl
  have hends : (documentEnds [u]).run ⟨[u], fault, standardHandles, []⟩
      = .ok ((), ⟨[u], fault, standardHandles, []⟩) := by
    obtain ⟨token, start, stop⟩ := u
    cases hu
    rfl
  -- The document is its content, then the check that nothing but the end follows, and then that
  -- end.
  have hdocument : (document tokens).run ⟨tokens, fault, [], []⟩
      = .ok (some root, ⟨[], fault, standardHandles, []⟩) := by
    rw [document, run_bind_of_ok (run_at? h _), hend, if_neg Bool.false_ne_true,
      run_bind_of_ok hcontent]
    refine (run_bind_of_ok (m := get) rfl).trans ?_
    rw [run_bind_of_ok hends, run_bind_of_ok hexpect]
    rfl
  rw [Node.ofTokens, StateT.run'_eq, hdocument]
  rfl

end ApiLint.Yaml.Descend
