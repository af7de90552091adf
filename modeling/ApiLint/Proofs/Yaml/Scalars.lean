import ApiLint.Proofs.Yaml.Cursors

/-!
# Scalars in flow collections

What is read of a scalar in a flow collection: of a plain one the characters up to white space or an
indicator, and of a quoted one without line ends one character after the other.
-/

namespace ApiLint.Yaml

open Cursor

variable {c : Cursor} {ch : Char} {cs rest : List Char}

/-! ### Plain scalars -/

namespace Plain

/-- Whether a character belongs to a plain scalar wherever it stands in one. -/
def isWordChar (c : Char) : Bool :=
  !isGap (some c) && c != ':' && c != '?' && c != '#' && !isFlowIndicator c

/-- Behind white space there is an indicator of flow collections. -/
def EndsFlow (cs : List Char) : Prop :=
  ∃ ch rest, cs.dropWhile isWhite = ch :: rest ∧ isFlowIndicator ch = true

lemma isGap_of_isWhite (h : isWhite ch = true) : isGap (some ch) = true := by
  simp only [isWhite, Bool.or_eq_true, beq_iff_eq] at h
  rcases h with (rfl | rfl) | rfl <;> decide

lemma isSolid_of_isFlowIndicator (h : isFlowIndicator ch = true) : isSolid ch = true := by
  simp only [isFlowIndicator, Bool.or_eq_true, beq_iff_eq] at h
  rcases h with (((rfl | rfl) | rfl) | rfl) | rfl <;> decide

/-- The first character is white space or an indicator of flow collections. -/
lemma EndsFlow.head (h : EndsFlow cs) : ∃ ch rest, cs = ch :: rest
    ∧ (isWhite ch = true ∨ isFlowIndicator ch = true) := by
  obtain ⟨ch, rest, hcs, hch⟩ := h
  cases cs with
  | nil => cases hcs
  | cons c cs =>
    by_cases hc : isWhite c = true
    · exact ⟨c, cs, rfl, .inl hc⟩
    · rw [List.dropWhile_cons_of_neg hc] at hcs
      cases hcs
      exact ⟨ch, rest, rfl, .inr hch⟩

lemma not_atDocumentMark (h : EndsFlow c.rest) : c.atDocumentMark = false := by
  obtain ⟨ch, rest, hrest, hch⟩ := h.head
  unfold atDocumentMark
  rw [hrest]
  split
  · next heq =>
    cases heq
    rcases hch with hch | hch <;> cases hch
  · next heq =>
    cases heq
    rcases hch with hch | hch <;> cases hch
  · rfl

lemma word_append (hcs : ∀ ch ∈ cs, isWordChar ch = true) (hrest : EndsFlow rest) :
    word true (cs ++ rest) = cs := by
  induction cs with
  | nil =>
    obtain ⟨ch, rest, rfl, hch⟩ := hrest.head
    have hends : isGap (some ch) = true ∨ isFlowIndicator ch = true := hch.imp_left isGap_of_isWhite
    rw [List.nil_append, word]
    rcases hends with hends | hends <;> simp [hends]
  | cons ch cs ih =>
    have hch := hcs ch (List.mem_cons_self ..)
    have ih := ih fun ch hch => hcs ch (List.mem_cons_of_mem _ hch)
    simp only [isWordChar, Bool.and_eq_true, bne_iff_ne, Bool.not_eq_true'] at hch
    simp [word, hch, ih]

/-- Behind the spaces there is a line end, or the indicator. -/
lemma EndsFlow.lineBreak?_cases (h : EndsFlow c.rest) (hspace : c.rest.head? ≠ some ' ') :
    (∃ c', c.lineBreak? = some ('\n', c') ∧ c'.rest.length < c.rest.length
        ∧ c'.rest.dropWhile isWhite = c.rest.dropWhile isWhite)
      ∨ c.lineBreak? = none ∧ c.rest.dropWhile isWhite = c.rest := by
  obtain ⟨ch, rest, hrest, hch⟩ := h.head
  by_cases hwhite : isWhite ch = true
  · obtain ⟨c', hbreak, hshorter, hdrop⟩ :=
      lineBreak?_of_white hrest hwhite fun h => hspace (by rw [hrest, h]; rfl)
    refine .inl ⟨c', hbreak, hshorter, ?_⟩
    rw [hdrop, hrest, List.dropWhile_cons_of_pos hwhite]
  · have hsolid := isSolid_of_isFlowIndicator (hch.resolve_left hwhite)
    refine .inr ⟨lineBreak?_eq_none fun other hother => ?_, ?_⟩
    · rw [hrest] at hother
      cases hother
      exact not_isBreak_of_isSolid hsolid
    · rw [hrest, dropWhile_white_of_solid hsolid]

lemma exists_breaks {n : Nat} (hn : c.rest.length < n) (h : EndsFlow c.rest) :
    ∃ bs c', breaks n c = (some bs, c') ∧ c'.rest = c.rest.dropWhile isWhite := by
  induction n generalizing c with
  | zero => exact absurd hn (Nat.not_lt_zero _)
  | succ n ih =>
    have hwhite := c.dropWhile_skipSpaces
    have hends : EndsFlow c.skipSpaces.rest := by rwa [EndsFlow, hwhite]
    have hlength := c.length_skipSpaces_le
    rw [breaks]
    -- Behind the spaces either a line ends, and the rest is shorter, or there is no more white
    -- space.
    rcases hends.lineBreak?_cases c.head?_skipSpaces
      with ⟨c', hbreak, hshorter, hdrop⟩ | ⟨hbreak, hdrop⟩
    · have hends' : EndsFlow c'.rest := by rwa [EndsFlow, hdrop]
      obtain ⟨bs, c'', hbs, hc''⟩ := ih (by omega) hends'
      rw [hbreak]
      dsimp only
      rw [not_atDocumentMark hends', if_neg Bool.false_ne_true, hbs]
      exact ⟨_, c'', rfl, by rw [hc'', hdrop, hwhite]⟩
    · rw [hbreak]
      exact ⟨[], _, rfl, by rw [← hdrop, hwhite]⟩

lemma exists_spaces (h : EndsFlow c.rest) :
    ∃ blanks newLine c', spaces c = (blanks, newLine, c')
      ∧ c'.rest = c.rest.dropWhile isWhite := by
  have hwhite := c.dropWhile_skipSpaces
  have hends : EndsFlow c.skipSpaces.rest := by rwa [EndsFlow, hwhite]
  have hblanks : c.takeWhile (· == ' ') = (c.rest.takeWhile (· == ' '), c.skipSpaces) := rfl
  rw [spaces, hblanks]
  dsimp only
  rcases hends.lineBreak?_cases c.head?_skipSpaces
    with ⟨c', hbreak, hshorter, hdrop⟩ | ⟨hbreak, hdrop⟩
  · have hends' : EndsFlow c'.rest := by rwa [EndsFlow, hdrop]
    obtain ⟨bs, c'', hbs, hc''⟩ := exists_breaks (Nat.lt_succ_self _) hends'
    rw [hbreak]
    dsimp only
    rw [not_atDocumentMark hends', if_neg Bool.false_ne_true, hbs]
    exact ⟨_, _, c'', rfl, by rw [hc'', hdrop, hwhite]⟩
  · rw [hbreak]
    exact ⟨_, _, _, rfl, by rw [← hdrop, hwhite]⟩

lemma words_at_indicator (h : c.rest = ch :: cs) (hch : isFlowIndicator ch = true) (indent : Int)
    (n : Nat) (newLine : Bool) : words true indent n newLine c = ([], newLine, c) := by
  cases n with
  | zero => rfl
  | succ n =>
    have hword : word true c.rest = [] := by
      rw [h, word]
      simp [hch]
    rw [words, hword, ite_self]
    rfl

/-- A plain scalar in a flow collection is read up to white space or an indicator, and the white
space with it. -/
lemma exists_scan {ch : Char} {cs rest : List Char} (hrest : c.rest = ch :: cs ++ rest)
    (hcs : ∀ d ∈ ch :: cs, isWordChar d = true) (hends : EndsFlow rest) (parent : Int) :
    ∃ newLine c', scan true parent c = (ch :: cs, newLine, c')
      ∧ c'.rest = rest.dropWhile isWhite := by
  have hskip : (c.skip (ch :: cs).length).rest = rest := by
    rw [rest_skip, hrest, List.drop_left]
  obtain ⟨blanks, newLine, c', hspaces, hc'⟩ :=
    exists_spaces (c := c.skip (ch :: cs).length) (by rwa [hskip])
  rw [hskip] at hc'
  have hcomment : c.at? '#' = false := by
    refine at?_eq_false_of_ne hrest ?_
    rintro rfl
    cases hcs '#' (List.mem_cons_self ..)
  have hword : word true c.rest = ch :: cs := by rw [hrest, word_append hcs hends]
  refine ⟨newLine, c', ?_, hc'⟩
  -- The scan goes on behind the white space, and ends there because an indicator follows.
  obtain ⟨other, cs', hother, hindicator⟩ := hends
  rw [scan, words, hcomment, if_neg Bool.false_ne_true, hword]
  dsimp only [List.isEmpty_cons]
  rw [if_neg Bool.false_ne_true, hspaces]
  dsimp only
  rw [words_at_indicator (hc'.trans hother) hindicator]
  split
  · rfl
  · simp

end Plain

/-! ### Between double quotes -/

lemma Cursor.takeWhile_cons_of_pos {p : Char → Bool} (h : c.rest = ch :: rest) (hch : p ch = true) :
    c.takeWhile p = (ch :: (c.next.takeWhile p).1, (c.next.takeWhile p).2) := by
  have hnext : c.next.rest = rest := by rw [rest_next, h]; rfl
  simp only [Cursor.takeWhile, h, hnext, List.takeWhile_cons_of_pos hch, List.length_cons, skip]

lemma Cursor.takeWhile_cons_of_neg {p : Char → Bool} (h : c.rest = ch :: rest)
    (hch : p ch = false) : c.takeWhile p = ([], c) := by
  simp only [Cursor.takeWhile, h, List.takeWhile_cons, hch, if_neg Bool.false_ne_true]
  rfl

namespace Quoted

/-- Text in front of what is read. -/
def prepend (cs : List Char) (r : Except YamlFault (List Char × Cursor)) :
    Except YamlFault (List Char × Cursor) :=
  r.map fun t => (cs ++ t.1, t.2)

lemma word_ordinary (h : c.rest = ch :: rest) (hch : isOrdinary ch = true) (n : Nat) :
    word true (n + 1) c = prepend [ch] (word true (n + 1) c.next) := by
  rw [word, word, takeWhile_cons_of_pos h hch]
  obtain ⟨run, c₁⟩ := c.next.takeWhile isOrdinary
  dsimp only
  split
  · next hsingle _ => cases hsingle
  · cases word true n c₁.next <;> rfl
  · next hsingle _ => cases hsingle
  · next hsingle _ => cases hsingle
  · cases escape c₁.next with
    | error fault => rfl
    | ok piece =>
      obtain ⟨piece, c₂⟩ := piece
      change (word true n c₂ >>= _) = prepend [ch] (word true n c₂ >>= _)
      cases word true n c₂ <;> rfl
  · rfl

lemma word_apostrophe (h : c.rest = '\'' :: rest) (n : Nat) :
    word true (n + 1) c = prepend ['\''] (word true n c.next) := by
  rw [word, takeWhile_cons_of_neg h (by decide)]
  dsimp only
  rw [h]
  rfl

lemma word_escape (h : c.rest = '\\' :: rest) {piece : List Char} {c' : Cursor}
    (hescape : escape c.next = .ok (piece, c')) (n : Nat) :
    word true (n + 1) c = prepend piece (word true n c') := by
  rw [word, takeWhile_cons_of_neg h (by decide)]
  dsimp only
  rw [h, hescape]
  rfl

lemma word_end (h : c.rest = ch :: rest) (hch : ch = ' ' ∨ ch = '"') (n : Nat) :
    word true (n + 1) c = .ok ([], c) := by
  rw [word, takeWhile_cons_of_neg h (by rcases hch with rfl | rfl <;> decide)]
  dsimp only
  rw [h]
  rcases hch with rfl | rfl <;> rfl

lemma words_end (h : c.rest = '"' :: rest) (n : Nat) : words true (n + 1) c = .ok ([], c.next) := by
  have hquote : c.at? (if true then '"' else '\'') = true := at?_eq_true h
  rw [words, if_pos hquote]
  rfl

/-- Blanks on a line are kept. -/
lemma spaces_eq (h : c.rest = cs ++ '"' :: rest) (hcs : ∀ ch ∈ cs, isBreak ch = false) :
    spaces c = .ok (c.takeWhile isSpaceOrTab) := by
  -- The blanks end at the quote at the latest, so something stands behind them that is no line end.
  obtain ⟨ch, rest', hbehind, hch⟩ : ∃ ch rest', c.rest.dropWhile isSpaceOrTab = ch :: rest'
      ∧ isBreak ch = false := by
    rw [h]
    clear h
    induction cs with
    | nil => exact ⟨_, _, rfl, rfl⟩
    | cons d cs ih =>
      rw [List.cons_append, List.dropWhile_cons]
      split
      · exact ih fun ch hch => hcs ch (List.mem_cons_of_mem _ hch)
      · exact ⟨_, _, rfl, hcs d (List.mem_cons_self ..)⟩
  have hrest : (c.takeWhile isSpaceOrTab).2.rest = ch :: rest' := by rw [rest_takeWhile, hbehind]
  have hbreak : (c.takeWhile isSpaceOrTab).2.lineBreak? = none :=
    lineBreak?_eq_none_of_rest hrest hch
  unfold spaces
  generalize c.takeWhile isSpaceOrTab = t at hrest hbreak ⊢
  obtain ⟨blanks, c'⟩ := t
  dsimp only at hrest hbreak ⊢
  rw [hbreak, peek_eq hrest]
  rfl

/-- The text from the beginning of a word on. -/
def textFrom (n : Nat) (c : Cursor) : Except YamlFault (List Char × Cursor) := do
  let (text, c) ← word true c.rest.length.succ c
  let (more, c) ← words true n c
  return (text ++ more, c)

lemma words_blanks (h : c.rest = ' ' :: cs ++ '"' :: rest) (hcs : ∀ ch ∈ cs, isBreak ch = false)
    (n : Nat) : words true (n + 1) c
      = prepend (c.takeWhile isSpaceOrTab).1 (textFrom n (c.takeWhile isSpaceOrTab).2) := by
  have hspaces : spaces c = .ok (c.takeWhile isSpaceOrTab) := by
    refine spaces_eq h fun ch hch => ?_
    rcases List.mem_cons.mp hch with rfl | hch
    · rfl
    · exact hcs ch hch
  have hquote : c.at? '"' = false := at?_eq_false_of_ne h (by decide)
  rw [words, if_pos rfl, hquote, hspaces, textFrom]
  generalize c.takeWhile isSpaceOrTab = t
  obtain ⟨blanks, c₁⟩ := t
  change (word true c₁.rest.length.succ c₁ >>= _) = prepend blanks (_ >>= _)
  cases word true c₁.rest.length.succ c₁ with
  | error fault => rfl
  | ok text =>
    obtain ⟨text, c₂⟩ := text
    change (words true n c₂ >>= _) = prepend blanks (words true n c₂ >>= _)
    cases words true n c₂ with
    | error fault => rfl
    | ok more => exact congrArg (fun cs => Except.ok (cs, more.2)) (List.append_assoc ..)

lemma prepend_prepend (xs ys : List Char) (r : Except YamlFault (List Char × Cursor)) :
    prepend xs (prepend ys r) = prepend (xs ++ ys) r := by
  cases r with
  | error fault => rfl
  | ok text => exact congrArg (fun cs => Except.ok (cs, text.2)) (List.append_assoc ..).symm

/-- Of two spaces the first one is put in front. -/
lemma words_blank_blank (h : c.rest = ' ' :: ' ' :: cs ++ '"' :: rest)
    (hcs : ∀ ch ∈ cs, isBreak ch = false) (n : Nat) :
    words true (n + 1) c = prepend [' '] (words true (n + 1) c.next) := by
  have hnext : c.next.rest = ' ' :: cs ++ '"' :: rest := by rw [rest_next, h]; rfl
  rw [words_blanks hnext hcs, words_blanks h fun ch hch => by
    rcases List.mem_cons.mp hch with rfl | hch
    · rfl
    · exact hcs ch hch]
  rw [takeWhile_cons_of_pos h rfl, prepend_prepend]
  rfl

/-- A space in front of a word is put in front of it. -/
lemma words_blank_word (h : c.rest = ' ' :: cs ++ '"' :: rest)
    (hcs : ∀ ch ∈ cs, isBreak ch = false)
    (hhead : ∃ d ds, cs ++ '"' :: rest = d :: ds ∧ isSpaceOrTab d = false) (n : Nat) :
    words true (n + 1) c = prepend [' '] (textFrom n c.next) := by
  obtain ⟨d, ds, hds, hd⟩ := hhead
  have hnext : c.next.rest = d :: ds := by rw [rest_next, h, ← hds]; rfl
  rw [words_blanks h hcs, takeWhile_cons_of_pos h rfl, takeWhile_cons_of_neg hnext hd]

end Quoted

end ApiLint.Yaml
