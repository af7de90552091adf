import ApiLint.Proofs.Document.Reading
import ApiLint.Proofs.Yaml.Cursors
import Mathlib.Logic.Relation

/-!
# Lexing flow collections

What a lexer does with the indicators of flow collections, token by token. Outside of blocks its
state comes down to a few things: how many collections are open, which tokens there are, what is
left of the text behind white space, and whether a key may follow. A stand is these, and one stand
leads to another if the lexer always gets from the one to the other.
-/

namespace ApiLint.Yaml.Lexer

/-! ### Stands -/

/-- No block is open, and no token has to be a key. -/
structure IsCalm (l : Lexer) : Prop where
  indent : l.indent = -1
  outer : l.outerIndents = []
  keys : ∀ k ∈ l.keys, k.2.required = false

/-- The tokens so far, without their marks. -/
def words (l : Lexer) : List Token := l.tokens.toList.map PlacedToken.token

/-- Where a lexer stands, as far as it matters outside of blocks. -/
structure Stand where
  depth : Nat
  words : List Token
  chars : List Char
  /-- Whether the next token may surely be a key. -/
  startsKey : Bool

/-- A lexer stands somewhere. White space in front makes no difference. -/
structure StandsAt (l : Lexer) (s : Stand) : Prop where
  calm : l.IsCalm
  depth : l.flowDepth = s.depth
  words : l.words = s.words
  chars : l.cursor.rest.dropWhile isWhite = s.chars.dropWhile isWhite
  startsKey : s.startsKey = true → l.allowsKey = true

/-- Reading one token leads from a lexer to another one. -/
structure Reads (l l' : Lexer) : Prop where
  run : ∀ n, Lexer.run (n + 1) l = Lexer.run n l'
  shorter : l'.cursor.rest.length < l.cursor.rest.length

/-- From one stand a lexer always gets to another one. -/
def Leads (s s' : Stand) : Prop :=
  ∀ l : Lexer, l.StandsAt s → ∃ l', Relation.ReflTransGen Reads l l' ∧ l'.StandsAt s'

lemma Leads.refl (s : Stand) : Leads s s := fun l h => ⟨l, .refl, h⟩

lemma Leads.trans {s s' s'' : Stand} (h : Leads s s') (h' : Leads s' s'') : Leads s s'' := by
  intro l hl
  obtain ⟨l', hreads, hl'⟩ := h l hl
  obtain ⟨l'', hreads', hl''⟩ := h' l' hl'
  exact ⟨l'', hreads.trans hreads', hl''⟩

/-- What only white space tells apart is the same stand. -/
lemma Leads.of_white {d : Nat} {ts : List Token} {cs cs' : List Char} {key : Bool}
    (h : cs.dropWhile isWhite = cs'.dropWhile isWhite) : Leads ⟨d, ts, cs, key⟩ ⟨d, ts, cs', key⟩ :=
  fun l hl => ⟨l, .refl, hl.calm, hl.depth, hl.words, hl.chars.trans h, hl.startsKey⟩

/-- A run goes on where the tokens that are read lead to, with turns enough for what is left. -/
lemma exists_run_eq {l l' : Lexer} (h : Relation.ReflTransGen Reads l l') {n : Nat}
    (hn : l.cursor.rest.length < n) :
    ∃ m, l'.cursor.rest.length < m ∧ run n l = run m l' := by
  induction h using Relation.ReflTransGen.head_induction_on generalizing n with
  | refl => exact ⟨n, hn, rfl⟩
  | head hreads _ ih =>
    cases n with
    | zero => exact absurd hn (Nat.not_lt_zero _)
    | succ n =>
      obtain ⟨m, hm, hrun⟩ := ih (Nat.lt_of_lt_of_le hreads.shorter (Nat.le_of_lt_succ hn))
      exact ⟨m, hm, (hreads.run n).trans hrun⟩

/-! ### Possible keys -/

variable {l : Lexer}

namespace IsCalm

lemma with_keys (h : l.IsCalm) {keys : List (Nat × SimpleKey)}
    (hkeys : ∀ k ∈ keys, k.2.required = false) : IsCalm { l with keys } :=
  ⟨h.indent, h.outer, hkeys⟩

lemma forgetKey (h : l.IsCalm) : ∃ keys, l.forgetKey = .ok { l with keys }
    ∧ ∀ k ∈ keys, k.2.required = false := by
  unfold Lexer.forgetKey
  cases hlookup : l.keys.lookup l.flowDepth with
  | none => exact ⟨l.keys, rfl, h.keys⟩
  | some key =>
    have hrequired : key.required = false := by
      obtain ⟨before, after, hkeys, _⟩ := List.lookup_eq_some_iff.mp hlookup
      exact h.keys (l.flowDepth, key) (by rw [hkeys]; simp)
    dsimp only
    rw [hrequired, if_neg Bool.false_ne_true]
    exact ⟨_, rfl, fun k hk => h.keys k (List.mem_of_mem_filter hk)⟩

lemma forgetStaleKeys (h : l.IsCalm) :
    l.forgetStaleKeys = .ok { l with keys := l.keys.filter fun k => !l.isStale k.2 } := by
  have hany : (l.keys.any fun k => l.isStale k.2 && k.2.required) = false := by
    rw [List.any_eq_false]
    intro k hk
    rw [h.keys k hk, Bool.and_false]
    exact Bool.false_ne_true
  rw [Lexer.forgetStaleKeys, hany, if_neg Bool.false_ne_true]

/-- Remembering a possible key puts it in front of the others. -/
lemma rememberKey (h : l.IsCalm) (hallows : l.allowsKey = true) : ∃ keys,
    l.rememberKey = .ok { l with
      keys := (l.flowDepth, ⟨l.tokens.size, false, l.cursor.index, l.cursor.mark⟩) :: keys }
    ∧ ∀ k ∈ keys, k.2.required = false := by
  obtain ⟨keys, hforget, hkeys⟩ := h.forgetKey
  have hrequired : (!l.inFlow && l.indent == l.cursor.column) = false := by
    have hindent : (l.indent == (l.cursor.column : Int)) = false := by
      rw [h.indent]
      exact beq_eq_false_iff_ne.mpr (by omega)
    rw [hindent, Bool.and_false]
  refine ⟨keys, ?_, hkeys⟩
  rw [Lexer.rememberKey, if_pos hallows, hforget, hrequired]
  rfl

lemma exists_rememberKey (h : l.IsCalm) : ∃ keys, l.rememberKey = .ok { l with keys }
    ∧ ∀ k ∈ keys, k.2.required = false := by
  by_cases hallows : l.allowsKey = true
  · obtain ⟨keys, hremember, hkeys⟩ := h.rememberKey hallows
    refine ⟨_, hremember, fun k hk => ?_⟩
    rcases List.mem_cons.mp hk with rfl | hk
    · rfl
    · exact hkeys k hk
  · exact ⟨l.keys, if_neg hallows, h.keys⟩

end IsCalm

/-! ### Reaching the next token -/

/-- The lexer in front of the next token, with the possible keys that are not too far back. -/
def arrived (l : Lexer) : Lexer :=
  { l.toNextToken with keys := l.keys.filter fun k => !l.toNextToken.isStale k.2 }

lemma unwind_eq (h : l.IsCalm) (column : Int) : l.unwind column = l := by
  unfold unwind
  split
  · rfl
  · rw [h.outer]
    rfl

lemma isCalm_toNextToken (h : l.IsCalm) : l.toNextToken.IsCalm := ⟨h.indent, h.outer, h.keys⟩

lemma isCalm_arrived (h : l.IsCalm) : l.arrived.IsCalm :=
  (isCalm_toNextToken h).with_keys fun k hk => h.keys k (List.mem_of_mem_filter hk)

lemma run_succ (h : l.IsCalm) (n : Nat) :
    run (n + 1) l = match l.arrived.cursor.peek with
      | none =>
        match l.arrived.leaveDocument with
        | .error fault => ⟨l.arrived.tokens.toList, some fault⟩
        | .ok l => ⟨(l.pushHere .streamEnd).tokens.toList, none⟩
      | some ch =>
        match l.arrived.readToken ch with
        | .error fault => ⟨l.arrived.tokens.toList, some fault⟩
        | .ok l => run n l := by
  have hforget : l.toNextToken.forgetStaleKeys = .ok l.arrived :=
    (isCalm_toNextToken h).forgetStaleKeys
  rw [run, hforget]
  dsimp only
  rewrite [unwind_eq (isCalm_arrived h)]
  rfl

lemma cursor_arrived (h : l.cursor.rest.head? ≠ some byteOrderMark) :
    l.arrived.cursor = (skipBlanks l.cursor.rest.length.succ l.cursor).2 := by
  simp only [arrived, toNextToken, Cursor.at?_eq_false h, Bool.and_false,
    if_neg Bool.false_ne_true]

/-- White space and nothing else is skipped in front of a token. -/
lemma rest_arrived (h : EndsSolid l.cursor.rest) :
    l.arrived.cursor.rest = l.cursor.rest.dropWhile isWhite := by
  rw [cursor_arrived, rest_skipBlanks (Nat.lt_succ_self _) h]
  intro hhead
  cases hrest : l.cursor.rest with
  | nil =>
    rw [hrest] at hhead
    cases hhead
  | cons c cs =>
    rw [hrest] at hhead
    cases hhead
    rw [EndsSolid, hrest] at h
    cases h byteOrderMark rfl

variable {d : Nat} {ts : List Token} {ch : Char} {cs : List Char} {key : Bool} {token : Token}

/-- In front of a token the lexer arrives at its first character. -/
lemma StandsAt.arrived (hl : l.StandsAt ⟨d, ts, ch :: cs, key⟩) (hsolid : isSolid ch = true) :
    l.arrived.cursor.rest = ch :: cs ∧ cs.length < l.cursor.rest.length := by
  have hrest : l.cursor.rest.dropWhile isWhite = ch :: cs :=
    hl.chars.trans (dropWhile_white_of_solid hsolid cs)
  have hends : EndsSolid l.cursor.rest := by
    intro c hc
    rw [hrest] at hc
    cases hc
    exact hsolid
  have hlength := (List.dropWhile_suffix isWhite (l := l.cursor.rest)).length_le
  rw [hrest, List.length_cons] at hlength
  exact ⟨(rest_arrived hends).trans hrest, hlength⟩

lemma reads_of_token (hcalm : l.IsCalm) (harrived : l.arrived.cursor.rest = ch :: cs)
    (hlength : cs.length < l.cursor.rest.length) {l' : Lexer}
    (hread : l.arrived.readToken ch = .ok l') (hshorter : l'.cursor.rest.length ≤ cs.length) :
    Reads l l' := by
  refine ⟨fun n => ?_, Nat.lt_of_le_of_lt hshorter hlength⟩
  rw [run_succ hcalm, Cursor.peek_eq harrived]
  dsimp only
  rw [hread]

lemma allowsKey_arrived (h : l.allowsKey = true) : l.arrived.allowsKey = true := by
  change (l.allowsKey || _) = true
  rw [h, Bool.true_or]

/-- What reads the token in front leads to the stand behind it. -/
lemma leads_of_token {s : Stand} (hsolid : isSolid ch = true)
    (h : ∀ l : Lexer, l.IsCalm → l.flowDepth = d → l.words = ts → l.cursor.rest = ch :: cs →
      ∃ l', l.readToken ch = .ok l' ∧ l'.StandsAt s ∧ l'.cursor.rest.length ≤ cs.length) :
    Leads ⟨d, ts, ch :: cs, key⟩ s := by
  intro l hl
  obtain ⟨harrived, hlength⟩ := hl.arrived hsolid
  obtain ⟨l', hread, hl', hshorter⟩ :=
    h l.arrived (isCalm_arrived hl.calm) hl.depth hl.words harrived
  exact ⟨l', .single (reads_of_token hl.calm harrived hlength hread hshorter), hl'⟩

/-! ### Indicators -/

@[simp] lemma words_push (l : Lexer) (token : Token) (start stop : Mark) :
    (l.push token start stop).words = l.words ++ [token] := by
  simp [words, push]

lemma atDocumentMark_eq_false {c : Cursor} (h : c.rest = ch :: cs)
    (hch : ch ≠ '-' ∧ ch ≠ '.') : c.atDocumentMark = false := by
  unfold Cursor.atDocumentMark
  rw [h]
  split
  · next heq => exact absurd (List.cons.inj heq).1 hch.1
  · next heq => exact absurd (List.cons.inj heq).1 hch.2
  · rfl

lemma inFlow_eq_true (h : l.flowDepth = d + 1) : l.inFlow = true := by
  rw [inFlow, h]
  rfl

/-- The state behind an indicator of one character. -/
lemma standsAt_pushIndicator (token : Token) (key : Bool) (hcalm : l.IsCalm)
    (hrest : l.cursor.rest = ch :: cs)
    (hkey : key = true → l.allowsKey = true) :
    (l.pushIndicator token 1).StandsAt ⟨l.flowDepth, l.words ++ [token], cs, key⟩
      ∧ (l.pushIndicator token 1).cursor.rest.length ≤ cs.length := by
  have hcs : (l.pushIndicator token 1).cursor.rest = cs := by
    change (l.cursor.skip 1).rest = cs
    rw [Cursor.rest_skip, hrest]
    rfl
  refine ⟨⟨⟨hcalm.indent, hcalm.outer, hcalm.keys⟩, rfl, ?_, by rw [hcs], hkey⟩, by rw [hcs]⟩
  exact words_push l token l.cursor.mark (l.cursor.skip 1).mark

lemma leads_flowStart (hsolid : isSolid ch = true) (hch : ch ≠ '-' ∧ ch ≠ '.')
    (hread : ∀ l : Lexer, l.cursor.atDocumentMark = false → l.readToken ch = l.readFlowStart token)
    (d : Nat) (ts : List Token) (cs : List Char) (key : Bool) :
    Leads ⟨d, ts, ch :: cs, key⟩ ⟨d + 1, ts ++ [token], cs, true⟩ := by
  refine leads_of_token hsolid fun l hcalm hdepth hwords hrest => ?_
  obtain ⟨keys, hremember, hkeys⟩ := hcalm.exists_rememberKey
  rw [hread l (atDocumentMark_eq_false hrest hch), readFlowStart, hremember, ← hdepth, ← hwords]
  exact ⟨_, rfl, standsAt_pushIndicator _ _
    (l := { l with keys, flowDepth := l.flowDepth + 1, allowsKey := true })
    ⟨hcalm.indent, hcalm.outer, hkeys⟩ hrest fun _ => rfl⟩

lemma leads_flowEnd (hsolid : isSolid ch = true) (hch : ch ≠ '-' ∧ ch ≠ '.')
    (hread : ∀ l : Lexer, l.cursor.atDocumentMark = false → l.readToken ch = l.readFlowEnd token)
    (d : Nat) (ts : List Token) (cs : List Char) (key : Bool) :
    Leads ⟨d + 1, ts, ch :: cs, key⟩ ⟨d, ts ++ [token], cs, false⟩ := by
  refine leads_of_token hsolid fun l hcalm hdepth hwords hrest => ?_
  obtain ⟨keys, hforget, hkeys⟩ := hcalm.forgetKey
  have hflow : inFlow { l with keys } = true := inFlow_eq_true hdepth
  have hd : d = l.flowDepth - 1 := by rw [hdepth]; rfl
  rw [hread l (atDocumentMark_eq_false hrest hch), readFlowEnd, hforget, hd, ← hwords]
  refine ⟨_, if_pos hflow, standsAt_pushIndicator _ _
    (l := { l with keys, flowDepth := l.flowDepth - 1, allowsKey := false })
    ⟨hcalm.indent, hcalm.outer, hkeys⟩ hrest nofun⟩

/-- A sequence begins. -/
lemma leads_sequenceStart (d : Nat) (ts : List Token) (cs : List Char) (key : Bool) :
    Leads ⟨d, ts, '[' :: cs, key⟩ ⟨d + 1, ts ++ [.flowSequenceStart], cs, true⟩ :=
  leads_flowStart (by decide) (by decide) (fun l h => by simp [readToken, h]) d ts cs key

/-- A mapping begins. -/
lemma leads_mappingStart (d : Nat) (ts : List Token) (cs : List Char) (key : Bool) :
    Leads ⟨d, ts, '\x7b' :: cs, key⟩ ⟨d + 1, ts ++ [.flowMappingStart], cs, true⟩ :=
  leads_flowStart (by decide) (by decide) (fun l h => by simp [readToken, h]) d ts cs key

/-- A sequence ends. -/
lemma leads_sequenceEnd (d : Nat) (ts : List Token) (cs : List Char) (key : Bool) :
    Leads ⟨d + 1, ts, ']' :: cs, key⟩ ⟨d, ts ++ [.flowSequenceEnd], cs, false⟩ :=
  leads_flowEnd (by decide) (by decide) (fun l h => by simp [readToken, h]) d ts cs key

/-- A mapping ends. -/
lemma leads_mappingEnd (d : Nat) (ts : List Token) (cs : List Char) (key : Bool) :
    Leads ⟨d + 1, ts, '\x7d' :: cs, key⟩ ⟨d, ts ++ [.flowMappingEnd], cs, false⟩ :=
  leads_flowEnd (by decide) (by decide) (fun l h => by simp [readToken, h]) d ts cs key

/-- A comma. -/
lemma leads_flowEntry (d : Nat) (ts : List Token) (cs : List Char) (key : Bool) :
    Leads ⟨d, ts, ',' :: cs, key⟩ ⟨d, ts ++ [.flowEntry], cs, true⟩ := by
  refine leads_of_token (by decide) fun l hcalm hdepth hwords hrest => ?_
  obtain ⟨keys, hforget, hkeys⟩ := hcalm.forgetKey
  have hread : l.readToken ',' = l.readFlowEntry := by
    simp [readToken, atDocumentMark_eq_false hrest (by decide)]
  rw [hread, readFlowEntry, hforget, ← hdepth, ← hwords]
  exact ⟨_, rfl, standsAt_pushIndicator _ _ (l := { l with keys, allowsKey := true })
    ⟨hcalm.indent, hcalm.outer, hkeys⟩ hrest fun _ => rfl⟩

/-! ### Scalars -/

/-- A scalar, given what is read of it. -/
lemma leads_scalar {rest text : List Char} {plain : Bool} (hsolid : isSolid ch = true)
    (hread : ∀ l : Lexer, l.flowDepth = d → l.cursor.rest = ch :: cs → ∃ (key : Bool) (c : Cursor),
      c.rest.dropWhile isWhite = rest.dropWhile isWhite ∧ c.rest.length ≤ cs.length
      ∧ l.readToken ch = l.rememberKey.map fun l =>
        { l with allowsKey := key }.pushTo (.scalar (String.ofList text) plain) c)
    (key : Bool) :
    Leads ⟨d, ts, ch :: cs, key⟩ ⟨d, ts ++ [.scalar (String.ofList text) plain], rest, false⟩ := by
  refine leads_of_token hsolid fun l hcalm hdepth hwords hrest => ?_
  obtain ⟨keys, hremember, hkeys⟩ := hcalm.exists_rememberKey
  obtain ⟨key', c, hc, hshorter, hread⟩ := hread l hdepth hrest
  rw [hread, hremember]
  refine ⟨_, rfl, ⟨⟨hcalm.indent, hcalm.outer, hkeys⟩, hdepth, ?_, hc, nofun⟩, hshorter⟩
  rw [← hwords]
  exact words_push ..

/-! ### Keys -/

lemma insertIdx_length_append {α : Type} (xs ys : List α) (x : α) :
    (xs ++ ys).insertIdx xs.length x = xs ++ x :: ys := by
  induction xs with
  | nil => rfl
  | cons y xs ih => exact congrArg (y :: ·) ih

lemma words_insertAt {before : Lexer} {t : PlacedToken}
    (h : l.tokens = before.tokens.push t) (mark : Mark) :
    (l.insertAt before.tokens.size token mark).words = before.words ++ [token, t.token] := by
  have htokens : (l.insertAt before.tokens.size token mark).tokens.toList
      = before.tokens.toList ++ [⟨token, mark, mark⟩, t] := by
    change (l.tokens.insertIdxIfInBounds before.tokens.size ⟨token, mark, mark⟩).toList = _
    rw [h]
    cases before.tokens with
    | mk ts =>
      rw [List.push_toArray, List.insertIdxIfInBounds_toArray]
      exact insertIdx_length_append ts [t] _
  rw [words, htokens, List.map_append]
  rfl

/-- Spaces in front of a token keep the lexer on its line. -/
lemma passes_arrived {k : Nat} (hrest : l.cursor.rest = List.replicate k ' ' ++ ch :: cs)
    (hsolid : isSolid ch = true) :
    l.cursor.Passes (List.replicate k ' ') l.arrived.cursor := by
  have hspaces : l.cursor.rest.takeWhile (· == ' ') = List.replicate k ' ' := by
    rw [hrest, List.takeWhile_append_of_pos fun c hc => by rw [List.eq_of_mem_replicate hc]; rfl,
      List.takeWhile_cons_of_neg, List.append_nil]
    intro hch
    have hwhite := not_isWhite_of_isSolid hsolid
    rw [eq_of_beq hch] at hwhite
    cases hwhite
  have hpasses : l.cursor.Passes (List.replicate k ' ') l.cursor.skipSpaces := by
    have hskip := Cursor.Passes.skip hrest fun c hc => by rw [List.eq_of_mem_replicate hc]; rfl
    rw [← hspaces] at hskip ⊢
    exact hskip
  have hch : l.cursor.skipSpaces.rest = ch :: cs :=
    List.append_cancel_left (hpasses.rest.symm.trans hrest)
  have hcomment : l.cursor.skipSpaces.at? '#' = false := by
    refine Cursor.at?_eq_false_of_ne hch ?_
    rintro rfl
    cases hsolid
  have hbreak : l.cursor.skipSpaces.lineBreak? = none :=
    Cursor.lineBreak?_eq_none_of_rest hch (not_isBreak_of_isSolid hsolid)
  rw [cursor_arrived, skipBlanks, hcomment, if_neg Bool.false_ne_true, hbreak]
  · exact hpasses
  · intro hhead
    rw [hrest] at hhead
    cases k with
    | zero =>
      cases hhead
      cases hsolid
    | succ k => cases hhead

/-- In front of a colon, the possible key at the present depth is the one that was remembered for
the scalar before, if it is not too far back. -/
lemma lookup_arrived {remembered : SimpleKey} {keys : List (Nat × SimpleKey)}
    (hkeys : l.keys = (l.flowDepth, remembered) :: keys)
    (hline : remembered.mark.line = l.arrived.cursor.line)
    (hindex : l.arrived.cursor.index ≤ remembered.index + keyLimit) :
    l.arrived.keys.lookup l.arrived.flowDepth = some remembered := by
  have hstale : l.toNextToken.isStale remembered = false := by
    change (remembered.mark.line != l.arrived.cursor.line
      || decide (keyLimit < l.arrived.cursor.index - remembered.index)) = false
    rw [hline, bne_self_eq_false, Bool.false_or, decide_eq_false_iff_not]
    omega
  change (l.keys.filter fun k => !l.toNextToken.isStale k.2).lookup l.flowDepth = _
  rw [hkeys, List.filter_cons_of_pos (by rw [hstale]; rfl), List.lookup_cons_self]

/-- A colon announces the scalar that was remembered, with the tokens before it in another lexer. -/
lemma standsAt_readValue (before : Lexer) {remembered : SimpleKey} {t : PlacedToken}
    (hcalm : l.IsCalm) (hdepth : l.flowDepth = d + 1) (hrest : l.cursor.rest = ':' :: cs)
    (hlookup : l.keys.lookup l.flowDepth = some remembered)
    (hbefore : remembered.tokensBefore = before.tokens.size)
    (htokens : l.tokens = before.tokens.push t) :
    ∃ l', l.readToken ':' = .ok l'
      ∧ l'.StandsAt ⟨d + 1, before.words ++ [.key, t.token, .value], cs, false⟩
      ∧ l'.cursor.rest.length ≤ cs.length := by
  have hflow := inFlow_eq_true hdepth
  have hread : l.readToken ':' = l.readValue := by
    simp [readToken, atDocumentMark_eq_false hrest (by decide), hflow]
  -- In a flow collection a key is announced wherever it stands, and the indents play no part.
  have hannounced : l.announceKey remembered = { l with
      keys := l.keys.filter (·.1 != l.flowDepth), allowsKey := false }.insertAt
        remembered.tokensBefore .key remembered.mark := if_pos hflow
  have hwords : (l.announceKey remembered).words = before.words ++ [.key, t.token] := by
    rw [hannounced, hbefore]
    exact words_insertAt htokens _
  have hcalm' : (l.announceKey remembered).IsCalm := by
    rw [hannounced]
    exact ⟨hcalm.indent, hcalm.outer, fun k hk => hcalm.keys k (List.mem_of_mem_filter hk)⟩
  have hdepth' : (l.announceKey remembered).flowDepth = d + 1 := by
    rw [hannounced]
    exact hdepth
  have hrest' : (l.announceKey remembered).cursor.rest = ':' :: cs := by
    rw [hannounced]
    exact hrest
  rw [hread, readValue, hlookup]
  refine ⟨_, rfl, ?_⟩
  have hstands := standsAt_pushIndicator .value false hcalm' hrest' nofun
  rw [hdepth', hwords, List.append_assoc] at hstands
  exact hstands

/-- A scalar on one line with its colon is a key. -/
lemma leads_key {written text rest : List Char} {k : Nat} (hsolid : isSolid ch = true)
    (hlimit : written.length + k ≤ keyLimit)
    (hread : ∀ l : Lexer, l.cursor.rest = ch :: cs → ∃ c : Cursor, l.cursor.Passes written c
      ∧ c.rest = List.replicate k ' ' ++ ':' :: rest ∧ c.rest.length ≤ cs.length
      ∧ l.readToken ch = l.rememberKey.map fun l =>
        { l with allowsKey := false }.pushTo (.scalar (String.ofList text) false) c) :
    Leads ⟨d + 1, ts, ch :: cs, true⟩
      ⟨d + 1, ts ++ [.key, .scalar (String.ofList text) false, .value], rest, false⟩ := by
  intro l hl
  obtain ⟨harrived, hlength⟩ := hl.arrived hsolid
  have hcalm := isCalm_arrived hl.calm
  obtain ⟨keys, hremember, hkeys⟩ := hcalm.rememberKey (allowsKey_arrived (hl.startsKey rfl))
  obtain ⟨c, hpasses, hc, hshorter, hread⟩ := hread l.arrived harrived
  rw [hremember] at hread
  -- The lexer behind the scalar, which it remembers as a possible key.
  obtain ⟨l₁, hl₁⟩ : ∃ l₁, l.arrived.readToken ch = .ok l₁ := ⟨_, hread⟩
  have heq := Except.ok.inj (hl₁.symm.trans hread)
  have hcursor : l₁.cursor = c := by rw [heq]; rfl
  have hcalm₁ : l₁.IsCalm := by
    rw [heq]
    exact ⟨hcalm.indent, hcalm.outer, fun k hk => (List.mem_cons.mp hk).elim
      (fun h => by rw [h]) (hkeys k)⟩
  have hkeys₁ : l₁.keys = (l₁.flowDepth, ⟨l.arrived.tokens.size, false, l.arrived.cursor.index,
      l.arrived.cursor.mark⟩) :: keys := by
    rw [heq]
    rfl
  have hspaces : l₁.cursor.Passes (List.replicate k ' ') l₁.arrived.cursor :=
    passes_arrived (by rw [hcursor]; exact hc) (by decide)
  rw [hcursor] at hspaces
  have hcolon : l₁.arrived.cursor.rest = ':' :: rest :=
    List.append_cancel_left (hspaces.rest.symm.trans hc)
  have hlookup := lookup_arrived hkeys₁ (hspaces.line.trans hpasses.line).symm (by
    rw [hspaces.index, hpasses.index, List.length_replicate]
    dsimp only
    omega)
  obtain ⟨l₂, hl₂, hstands, hshorter₂⟩ := standsAt_readValue (d := d) l.arrived
    (isCalm_arrived hcalm₁) (by rw [heq]; exact hl.depth) hcolon hlookup rfl (by rw [heq]; rfl)
  have hreads₁ : Reads l l₁ :=
    reads_of_token hl.calm harrived hlength hl₁ (by rw [hcursor]; exact hshorter)
  have hreads₂ : Reads l₁ l₂ := reads_of_token hcalm₁ hcolon (by
    rw [hcursor, hc, List.length_append, List.length_cons]
    omega) hl₂ hshorter₂
  have hwords : l.arrived.words = ts := hl.words
  rw [hwords] at hstands
  exact ⟨l₂, .tail (.single hreads₁) hreads₂, hstands⟩

/-! ### The whole text -/

/-- At the end of a text, behind all collections, only the end of the stream is added. -/
lemma run_at_end (hl : l.StandsAt ⟨0, ts, [], key⟩) (n : Nat) :
    (run (n + 1) l).tokens.map PlacedToken.token = ts ++ [.streamEnd]
      ∧ (run (n + 1) l).fault = none := by
  have hends : EndsSolid l.cursor.rest := by
    intro c hc
    rw [hl.chars] at hc
    cases hc
  have hpeek : l.arrived.cursor.peek = none := by
    rw [Cursor.peek, rest_arrived hends, hl.chars]
    rfl
  have hcalm := isCalm_arrived hl.calm
  obtain ⟨keys, hforget, _⟩ := hcalm.forgetKey
  rw [run_succ hl.calm, hpeek]
  dsimp only
  rw [leaveDocument, unwind_eq hcalm, hforget]
  have hwords : l.arrived.words = ts := hl.words
  refine ⟨?_, rfl⟩
  rw [← hwords]
  exact words_push ..

/-- The tokens of a text, whose characters may all stand in one, if the lexer gets from its
beginning to its end. -/
lemma tokensOf_of_leads {text : String} (hallowed : text.toList.all isAllowed = true)
    (h : Leads ⟨0, [], text.toList, true⟩ ⟨0, ts, [], key⟩) :
    (tokensOf text).tokens.map PlacedToken.token = ts ++ [.streamEnd]
      ∧ (tokensOf text).fault = none := by
  rw [tokensOf, if_pos hallowed]
  obtain ⟨l, hreads, hl⟩ := h { cursor := ⟨text.toList, 0, 0, 0⟩ }
    ⟨⟨rfl, rfl, fun _ hk => absurd hk List.not_mem_nil⟩, rfl, rfl, rfl, fun _ => rfl⟩
  obtain ⟨n, hn, hrun⟩ := exists_run_eq hreads (Nat.lt_succ_self _)
  cases n with
  | zero => exact absurd hn (Nat.not_lt_zero _)
  | succ n =>
    rw [hrun]
    exact run_at_end hl n

end ApiLint.Yaml.Lexer
