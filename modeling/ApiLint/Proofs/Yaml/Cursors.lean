import ApiLint.Yaml.Lexer
import Mathlib.Data.List.Basic

/-!
# Going on through a text

What a cursor leaves behind it and what is left of the text, by character, by a run of characters
and over white space. Within a line the column of a key does not matter, but the line and the
distance do.
-/

namespace ApiLint.Yaml

/-- Whether a character is white space between tokens. -/
def isWhite (c : Char) : Bool := c == ' ' || c == '\n' || c == '\r'

/-- Whether a character can begin a token of its own: none that is skipped. -/
def isSolid (c : Char) : Bool := !isWhite c && !isBreak c && c != '#' && c != byteOrderMark

lemma not_isWhite_of_isSolid {c : Char} (h : isSolid c = true) : isWhite c = false := by
  simp only [isSolid, Bool.and_eq_true, Bool.not_eq_true'] at h
  exact h.1.1.1

lemma not_isBreak_of_isSolid {c : Char} (h : isSolid c = true) : isBreak c = false := by
  simp only [isSolid, Bool.and_eq_true, Bool.not_eq_true'] at h
  exact h.1.1.2

namespace Cursor

variable {c c' : Cursor} {ch : Char} {cs rest : List Char}

/-! ### By character -/

@[simp] lemma rest_next (c : Cursor) : c.next.rest = c.rest.tail := by
  unfold next
  split
  · next h => rw [h]; rfl
  · next h => rw [h]; rfl
  · next h =>
    rw [h]
    split
    · rfl
    · split <;> rfl

lemma index_next (h : c.rest ≠ []) : c.next.index = c.index + 1 := by
  unfold next
  split
  · next hnil => exact absurd hnil h
  · rfl
  · split
    · rfl
    · split <;> rfl

lemma line_next (h : c.rest = ch :: cs) (hch : isBreak ch = false) : c.next.line = c.line := by
  unfold next
  split
  · rfl
  · rfl
  · next h' =>
    rw [h] at h'
    cases h'
    rw [hch, if_neg Bool.false_ne_true]
    split <;> rfl

@[simp] lemma rest_skip (n : Nat) (c : Cursor) : (c.skip n).rest = c.rest.drop n := by
  induction n generalizing c with
  | zero => rfl
  | succ n ih => rw [skip, ih, rest_next, List.drop_tail]

lemma peek_eq (h : c.rest = ch :: cs) : c.peek = some ch := by
  rw [peek, h, List.head?_cons]

lemma at?_eq_false (h : c.rest.head? ≠ some ch) : c.at? ch = false := by
  rw [at?, peek]
  exact beq_eq_false_iff_ne.mpr h

lemma at?_eq_false_of_ne {other : Char} (h : c.rest = other :: cs) (hne : other ≠ ch) :
    c.at? ch = false :=
  at?_eq_false (by simpa [h] using hne)

lemma at?_eq_true (h : c.rest = ch :: cs) : c.at? ch = true := by
  rw [at?, peek_eq h]
  exact beq_self_eq_true _

/-! ### By runs of characters -/

@[simp] lemma rest_takeWhile (c : Cursor) (p : Char → Bool) :
    (c.takeWhile p).2.rest = c.rest.dropWhile p := by
  calc (c.takeWhile p).2.rest = c.rest.drop (c.rest.takeWhile p).length := rest_skip ..
    _ = (c.rest.takeWhile p ++ c.rest.dropWhile p).drop (c.rest.takeWhile p).length := by
      rw [List.takeWhile_append_dropWhile]
    _ = c.rest.dropWhile p := List.drop_left

/-- A cursor lies behind characters of the line of another one. -/
structure Passes (c : Cursor) (cs : List Char) (c' : Cursor) : Prop where
  rest : c.rest = cs ++ c'.rest
  index : c'.index = c.index + cs.length
  line : c'.line = c.line

namespace Passes

lemma nil (c : Cursor) : Passes c [] c := ⟨rfl, rfl, rfl⟩

lemma append {cs' : List Char} {c'' : Cursor} (h : Passes c cs c') (h' : Passes c' cs' c'') :
    Passes c (cs ++ cs') c'' where
  rest := by rw [h.rest, h'.rest, List.append_assoc]
  index := by rw [h'.index, h.index, List.length_append, Nat.add_assoc]
  line := h'.line.trans h.line

lemma next (h : c.rest = ch :: rest) (hch : isBreak ch = false) : Passes c [ch] c.next where
  rest := by rw [rest_next, h]; rfl
  index := index_next (by simp [h])
  line := line_next h hch

lemma skip (h : c.rest = cs ++ rest) (hcs : ∀ ch ∈ cs, isBreak ch = false) :
    Passes c cs (c.skip cs.length) := by
  induction cs generalizing c with
  | nil => exact nil c
  | cons ch cs ih =>
    have hnext := next h (hcs ch (List.mem_cons_self ..))
    have hrest : c.next.rest = cs ++ rest := by rw [rest_next, h]; rfl
    exact hnext.append (ih hrest fun ch hch => hcs ch (List.mem_cons_of_mem _ hch))

lemma length_lt (h : Passes c (ch :: cs) c') : c'.rest.length < c.rest.length := by
  rw [h.rest, List.cons_append, List.length_cons, List.length_append]
  omega

end Passes

/-! ### Over line ends -/

lemma lineBreak?_eq_none (h : ∀ ch, c.rest.head? = some ch → isBreak ch = false) :
    c.lineBreak? = none := by
  unfold lineBreak?
  split
  · next heq => exact absurd (h _ (by rw [heq]; rfl)) (by decide)
  · next heq => exact absurd (h _ (by rw [heq]; rfl)) (by decide)
  · next heq => exact absurd (h _ (by rw [heq]; rfl)) (by decide)
  · next heq => rw [h _ (by rw [heq]; rfl)]; rfl
  · rfl

lemma lineBreak?_eq_none_of_rest (h : c.rest = ch :: cs) (hch : isBreak ch = false) :
    c.lineBreak? = none := by
  refine lineBreak?_eq_none fun other hother => ?_
  rw [h] at hother
  cases hother
  exact hch

lemma lineBreak?_carriageReturn (h : c.rest = '\r' :: cs) (hcs : cs.head? ≠ some '\n') :
    c.lineBreak? = some ('\n', c.next) := by
  rw [lineBreak?, h]
  split
  · next heq =>
    cases heq
    exact absurd rfl hcs
  · next heq => cases heq
  · next heq => cases heq
  · next heq =>
    cases heq
    rfl
  · next heq => cases heq

/-- A line end of white space, and what is behind it. -/
lemma lineBreak?_of_white (h : c.rest = ch :: cs) (hch : isWhite ch = true) (hspace : ch ≠ ' ') :
    ∃ c', c.lineBreak? = some ('\n', c') ∧ c'.rest.length < c.rest.length
      ∧ c'.rest.dropWhile isWhite = cs.dropWhile isWhite := by
  have hends : ch = '\n' ∨ ch = '\r' := by
    simp only [isWhite, Bool.or_eq_true, beq_iff_eq] at hch
    rcases hch with (rfl | h) | h
    · exact absurd rfl hspace
    · exact .inl h
    · exact .inr h
  have hlength : cs.length < c.rest.length := by rw [h]; exact Nat.lt_succ_self _
  have hone : c.lineBreak? = some ('\n', c.next) → ∃ c', c.lineBreak? = some ('\n', c')
      ∧ c'.rest.length < c.rest.length ∧ c'.rest.dropWhile isWhite = cs.dropWhile isWhite := by
    intro hbreak
    have hnext : c.next.rest = cs := by rw [rest_next, h]; rfl
    exact ⟨c.next, hbreak, by rw [hnext]; exact hlength, by rw [hnext]⟩
  rcases hends with rfl | rfl
  · exact hone (by rw [lineBreak?, h]; rfl)
  · by_cases hcs : cs.head? = some '\n'
    · -- The two characters of a line end are passed at once, and the second is white as well.
      obtain ⟨cs, rfl⟩ := List.head?_eq_some_iff.mp hcs
      refine ⟨c.skip 2, by rw [lineBreak?, h]; rfl, ?_, ?_⟩
      · rw [rest_skip, h]
        simp only [List.drop_succ_cons, List.drop_zero, List.length_cons]
        omega
      · rw [rest_skip, h]
        rfl
    · exact hone (lineBreak?_carriageReturn h hcs)

end Cursor

/-! ### White space -/

lemma dropWhile_spaces (cs : List Char) :
    (cs.dropWhile (· == ' ')).dropWhile isWhite = cs.dropWhile isWhite := by
  induction cs with
  | nil => rfl
  | cons c cs ih =>
    by_cases hc : c = ' '
    · subst hc
      rw [List.dropWhile_cons_of_pos (by rfl), List.dropWhile_cons_of_pos (by rfl), ih]
    · rw [List.dropWhile_cons_of_neg (by simpa using hc)]

lemma dropWhile_white_of_solid {c : Char} (h : isSolid c = true) (cs : List Char) :
    (c :: cs).dropWhile isWhite = c :: cs :=
  List.dropWhile_cons_of_neg (by rw [not_isWhite_of_isSolid h]; exact Bool.false_ne_true)

namespace Cursor

lemma dropWhile_skipSpaces (c : Cursor) :
    c.skipSpaces.rest.dropWhile isWhite = c.rest.dropWhile isWhite := by
  rw [skipSpaces, skipWhile, rest_takeWhile, dropWhile_spaces]

lemma head?_skipSpaces (c : Cursor) : c.skipSpaces.rest.head? ≠ some ' ' := by
  rw [skipSpaces, skipWhile, rest_takeWhile]
  intro hhead
  have hnot := List.head?_dropWhile_not (· == ' ') c.rest
  rw [hhead] at hnot
  cases hnot

lemma length_skipSpaces_le (c : Cursor) : c.skipSpaces.rest.length ≤ c.rest.length := by
  rw [skipSpaces, skipWhile, rest_takeWhile]
  exact (List.dropWhile_suffix _).length_le

end Cursor

/-- What stands behind white space can be a token or nothing. -/
def EndsSolid (cs : List Char) : Prop :=
  ∀ c, (cs.dropWhile isWhite).head? = some c → isSolid c = true

namespace Lexer

/-- Blanks and line ends are skipped up to what can be a token. -/
lemma rest_skipBlanks {n : Nat} {c : Cursor} (hn : c.rest.length < n) (hends : EndsSolid c.rest) :
    (skipBlanks n c).2.rest = c.rest.dropWhile isWhite := by
  induction n generalizing c with
  | zero => exact absurd hn (Nat.not_lt_zero _)
  | succ n ih =>
    have hwhite := c.dropWhile_skipSpaces
    have hlength := c.length_skipSpaces_le
    have hhead := c.head?_skipSpaces
    rw [EndsSolid, ← hwhite] at hends
    rw [← hwhite, skipBlanks]
    -- What is white behind the spaces is a line end, since spaces are skipped already.
    clear hwhite
    generalize c.skipSpaces = c₁ at hends hlength hhead ⊢
    cases hrest : c₁.rest with
    | nil => simp [Cursor.at?, Cursor.peek, Cursor.lineBreak?, hrest]
    | cons ch cs =>
      rw [hrest] at hends hhead hlength
      have hcomment : c₁.at? '#' = false := by
        refine Cursor.at?_eq_false_of_ne hrest ?_
        rintro rfl
        cases hends '#' rfl
      rw [hcomment, if_neg Bool.false_ne_true]
      by_cases hch : isWhite ch = true
      · obtain ⟨c', hbreak, hshorter, hdrop⟩ :=
          Cursor.lineBreak?_of_white hrest hch fun h => hhead (by rw [h]; rfl)
        rw [List.dropWhile_cons_of_pos hch, ← hdrop] at hends ⊢
        rw [hrest] at hshorter
        rw [hbreak]
        exact ih (by omega) hends
      · rw [List.dropWhile_cons_of_neg hch] at hends ⊢
        rw [Cursor.lineBreak?_eq_none_of_rest hrest (not_isBreak_of_isSolid (hends ch rfl)), hrest]

end Lexer

end ApiLint.Yaml
