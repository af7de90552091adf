import ApiLint.Proofs.Json.Grammar
import ApiLint.Proofs.Yaml.Scalars

/-!
# JSON strings as YAML scalars

Between double quotes YAML reads the pieces of a JSON string that it shares as the characters that
they stand for.
-/

namespace ApiLint.Json

open Yaml Yaml.Quoted

/-- The character of a piece that is no half of a surrogate pair. -/
def Piece.char : Piece → Char
  | .plain c => c.val
  | .escape e => e.char
  | .unit u => Char.ofNat u.value

/-- Without halves of surrogate pairs every piece stands for a character of its own. -/
lemma textOf_eq {ps : List Piece} (h : ps.all Piece.isShared = true) :
    textOf ps = ps.map Piece.char := by
  induction ps with
  | nil => rfl
  | cons p ps ih =>
    rw [List.all_cons, Bool.and_eq_true] at h
    have ih := ih h.2
    cases p with
    | plain c => rw [textOf, ih]; rfl
    | escape e => rw [textOf, ih]; rfl
    | unit u =>
      -- A code unit that is no half of a pair is never joined with the one behind it.
      have hhalf : (u.isHigh || u.isLow) = false := by simpa [Piece.isShared] using h.1
      have hhigh : u.isHigh = false := (Bool.or_eq_false_iff.mp hhalf).1
      unfold textOf
      split
      · next heq => cases heq
      · next heq => cases heq
      · next heq => cases heq
      · next heq =>
        cases heq
        rw [hhalf, hhigh, Bool.false_and, if_neg Bool.false_ne_true, if_neg Bool.false_ne_true, ih]
        rfl
      · next heq =>
        cases heq
        rw [hhalf, if_neg Bool.false_ne_true, ih]
        rfl

/-! ### Escapes -/

variable {c : Cursor} {rest : List Char}

lemma escape_letter {e : Escape} (h : c.rest = e.letter :: rest) :
    Quoted.escape c = .ok ([e.char], c.next) := by
  have hpeek := Cursor.peek_eq h
  cases e with
  | _ =>
    rw [Quoted.escape, hpeek]
    rfl

lemma hexValue?_char (d : HexDigit) : hexValue? d.char = some d.value.val := by
  obtain ⟨value, capital⟩ := d
  revert value capital
  decide

lemma not_isBreak_hexDigit (d : HexDigit) : isBreak d.char = false := by
  obtain ⟨value, capital⟩ := d
  revert value capital
  decide

lemma CodeUnit.value_lt (u : CodeUnit) : u.value < 0x10000 := by
  obtain ⟨⟨a, _⟩, ⟨b, _⟩, ⟨c, _⟩, ⟨d, _⟩⟩ := u
  change (((0 * 16 + a.val) * 16 + b.val) * 16 + c.val) * 16 + d.val < 0x10000
  omega

/-- The digits of a code unit are read as its number. -/
lemma code?_hexDigits (u : CodeUnit) (rest : List Char) :
    code? 4 (u.hexDigits.map HexDigit.char ++ rest) = some u.value := by
  have htake : (u.hexDigits.map HexDigit.char ++ rest).take 4 = u.hexDigits.map HexDigit.char := rfl
  have hvalues : (u.hexDigits.map HexDigit.char).mapM hexValue?
      = some (u.hexDigits.map fun d => d.value.val) := by
    simp [CodeUnit.hexDigits, hexValue?_char]
  rw [code?, htake, if_pos (by rfl), hvalues]
  rfl

/-- The number of a code unit that is no half of a surrogate pair is that of its character. -/
lemma escape_unit {u : CodeUnit} (hu : (u.isHigh || u.isLow) = false)
    (h : c.rest = 'u' :: (u.hexDigits.map HexDigit.char ++ rest)) :
    Quoted.escape c = .ok ([Char.ofNat u.value], c.next.skip 4) := by
  have hcode : code? 4 c.next.rest = some u.value := by
    rw [Cursor.rest_next, h]
    exact code?_hexDigits u rest
  obtain ⟨hhigh, hlow⟩ := Bool.or_eq_false_iff.mp hu
  have hpoint : codePoint u.value = .ok (Char.ofNat u.value) := by
    have hlt := u.value_lt
    have hhalf : Text.isSurrogate u.value = false := by
      simp only [CodeUnit.isHigh, CodeUnit.isLow, Bool.and_eq_false_iff, decide_eq_false_iff_not]
        at hhigh hlow
      simp only [Text.isSurrogate, Bool.and_eq_false_iff, decide_eq_false_iff_not]
      omega
    rw [codePoint, if_neg (by omega), hhalf, if_neg Bool.false_ne_true]
  have hlookup : escapes.lookup 'u' = none := rfl
  have hlength : codeLength? 'u' = some 4 := rfl
  simp only [Quoted.escape, Cursor.peek_eq h, hlookup, hlength, hcode, hpoint]
  rfl

/-! ### Pieces -/

/-- A space, which parts words. -/
def Piece.isSpace (p : Piece) : Bool := p.chars == [' ']

lemma Piece.eq_of_isSpace {p : Piece} (h : p.isSpace = true) : p = .plain ⟨' ', rfl⟩ := by
  have hchars : p.chars = [' '] := eq_of_beq h
  cases p with
  | plain d => exact congrArg Piece.plain (Subtype.ext (List.cons.inj hchars).1)
  | escape e => cases hchars
  | unit u => cases hchars

/-- A piece that is no space does not begin with a blank. -/
lemma Piece.exists_head {p : Piece} (hspace : p.isSpace = false) :
    ∃ d ds, p.chars = d :: ds ∧ isSpaceOrTab d = false := by
  cases p with
  | plain d =>
    refine ⟨_, _, rfl, ?_⟩
    have hd : d.val ≠ ' ' := by
      intro heq
      simp [isSpace, chars, heq] at hspace
    have htab : d.val ≠ '\t' := by
      intro heq
      have := d.property
      rw [heq] at this
      cases this
    simp [isSpaceOrTab, hd, htab]
  | escape e => exact ⟨_, _, rfl, rfl⟩
  | unit u => exact ⟨_, _, rfl, rfl⟩

lemma Piece.not_isBreak {p : Piece} (hp : p.isShared = true) :
    ∀ ch ∈ p.chars, isBreak ch = false := by
  intro ch hch
  cases p with
  | plain d =>
    simp only [Piece.isShared, Bool.and_eq_true, Bool.not_eq_true'] at hp
    rw [List.mem_singleton.mp hch]
    exact hp.2
  | escape e =>
    simp only [Piece.chars, List.mem_cons, List.not_mem_nil, or_false] at hch
    rcases hch with rfl | rfl
    · decide
    · cases e <;> decide
  | unit u =>
    simp only [Piece.chars, List.mem_cons, List.mem_map] at hch
    rcases hch with rfl | rfl | ⟨d, -, rfl⟩
    · decide
    · decide
    · exact not_isBreak_hexDigit d

/-- A character that stands for itself is ordinary, an apostrophe or a space. -/
lemma isOrdinary_of_isUnescaped {d : Char} (hd : isUnescaped d = true) (hbreak : isBreak d = false)
    (hspace : d ≠ ' ') : isOrdinary d = true ∨ d = '\'' := by
  simp only [isUnescaped, Bool.and_eq_true, bne_iff_ne, decide_eq_true_eq] at hd
  obtain ⟨⟨hcontrol, hquote⟩, hbackslash⟩ := hd
  by_cases hapostrophe : d = '\''
  · exact .inr hapostrophe
  · have htab : d ≠ '\t' := by
      rintro rfl
      exact absurd hcontrol (by decide)
    refine .inl ?_
    simp [isOrdinary, isSpaceOrTab, hbreak, hquote, hbackslash, hapostrophe, htab, hspace]

/-- A piece that is no space goes on a word by its character. -/
lemma word_piece {p : Piece} (hp : p.isShared = true) (hspace : p.isSpace = false)
    (h : c.rest = p.chars ++ rest) : ∃ c', c.Passes p.chars c'
      ∧ ∀ n, c.rest.length ≤ n → ∃ m, c'.rest.length < m
        ∧ word true (n + 1) c = prepend [p.char] (word true m c') := by
  have hbreak := Piece.not_isBreak hp
  cases p with
  | plain d =>
    have hd : isBreak d.val = false := hbreak d.val (List.mem_singleton_self _)
    have hrest : c.rest = d.val :: rest := h
    have hshorter : c.next.rest.length < c.rest.length := by
      rw [Cursor.rest_next, hrest]
      exact Nat.lt_succ_self _
    refine ⟨c.next, .next hrest hd, fun n hn => ?_⟩
    have hd' : d.val ≠ ' ' := by
      intro heq
      simp [Piece.isSpace, Piece.chars, heq] at hspace
    rcases isOrdinary_of_isUnescaped d.property hd hd' with hordinary | hapostrophe
    · exact ⟨n + 1, by omega, word_ordinary hrest hordinary n⟩
    · refine ⟨n, by omega, ?_⟩
      rw [hapostrophe] at hrest
      rw [Piece.char, hapostrophe]
      exact word_apostrophe hrest n
  | escape e =>
    have hpasses := Cursor.Passes.skip h hbreak
    have hnext : c.next.rest = e.letter :: rest := by rw [Cursor.rest_next, h]; rfl
    exact ⟨_, hpasses, fun n hn =>
      ⟨n, Nat.lt_of_lt_of_le hpasses.length_lt hn, word_escape h (escape_letter hnext) n⟩⟩
  | unit u =>
    have hpasses := Cursor.Passes.skip h hbreak
    have hnext : c.next.rest = 'u' :: (u.hexDigits.map HexDigit.char ++ rest) := by
      rw [Cursor.rest_next, h]
      rfl
    have hhalf : (u.isHigh || u.isLow) = false := by simpa [Piece.isShared] using hp
    exact ⟨_, hpasses, fun n hn =>
      ⟨n, Nat.lt_of_lt_of_le hpasses.length_lt hn, word_escape h (escape_unit hhalf hnext) n⟩⟩

/-! ### Texts -/

/-- Pieces in front of the closing quote are read as their characters, first those of a word and
then the others. -/
def IsRead (c : Cursor) (ps : List Piece) : Prop :=
  ∃ text c₁ more c₂, text ++ more = ps.map Piece.char ∧ c₁.rest.length ≤ c.rest.length
    ∧ c.Passes (ps.flatMap Piece.chars ++ ['"']) c₂
    ∧ (∀ n, c.rest.length < n → word true n c = .ok (text, c₁))
    ∧ (∀ n, c₁.rest.length < n → words true n c₁ = .ok (more, c₂))

/-- Where there is fuel for more than what is left, there is fuel for one step. -/
lemma of_lt_fuel {k : Nat} {P : Nat → Prop} (h : ∀ n, k ≤ n → P (n + 1)) : ∀ n, k < n → P n := by
  intro n hn
  cases n with
  | zero => exact absurd hn (Nat.not_lt_zero _)
  | succ n => exact h n (Nat.le_of_lt_succ hn)

lemma IsRead.nil (h : c.rest = '"' :: rest) : IsRead c [] :=
  ⟨[], c, [], c.next, rfl, Nat.le_refl _, .next h (by decide),
    of_lt_fuel fun n _ => word_end h (.inr rfl) n, of_lt_fuel fun n _ => words_end h n⟩

lemma IsRead.piece {p : Piece} {ps : List Piece} (hp : p.isShared = true)
    (hspace : p.isSpace = false) (h : c.rest = p.chars ++ rest)
    (hps : ∀ c' : Cursor, c'.rest = rest → IsRead c' ps) : IsRead c (p :: ps) := by
  obtain ⟨c', hpasses, hword⟩ := word_piece hp hspace h
  have hrest : c'.rest = rest := List.append_cancel_left (hpasses.rest.symm.trans h)
  obtain ⟨text, c₁, more, c₂, htext, hlength, hpasses', hword', hwords⟩ := hps c' hrest
  refine ⟨p.char :: text, c₁, more, c₂, congrArg (p.char :: ·) htext, ?_, ?_,
    of_lt_fuel fun n hn => ?_, hwords⟩
  · rw [hpasses.rest, List.length_append]
    omega
  · rw [List.flatMap_cons, List.append_assoc]
    exact hpasses.append hpasses'
  · obtain ⟨m, hm, heq⟩ := hword n hn
    rw [heq, hword' m hm]
    rfl

/-- Behind a space that parts words, the text goes on with a word and then the others. -/
lemma words_space {ps : List Piece} (hps : ps.all Piece.isShared = true)
    (h : c.rest = ' ' :: (ps.flatMap Piece.chars ++ '"' :: rest)) {text more : List Char}
    {c₁ c₂ : Cursor} (hword : word true c.next.rest.length.succ c.next = .ok (text, c₁)) {n : Nat}
    (hwords : ∀ m, n ≤ m → words true m c₁ = .ok (more, c₂)) :
    words true (n + 1) c = .ok (' ' :: (text ++ more), c₂) := by
  have hbreaks : ∀ ch ∈ ps.flatMap Piece.chars, isBreak ch = false := by
    intro ch hch
    obtain ⟨p, hp, hch⟩ := List.mem_flatMap.mp hch
    exact Piece.not_isBreak (List.all_eq_true.mp hps p hp) ch hch
  have hfrom : textFrom n c.next = .ok (text ++ more, c₂) := by
    rw [textFrom, hword]
    change (words true n c₁ >>= _) = _
    rw [hwords n (Nat.le_refl n)]
    rfl
  cases ps with
  | nil => rw [words_blank_word h hbreaks ⟨_, _, rfl, rfl⟩, hfrom]; rfl
  | cons q qs =>
    by_cases hspace : q.isSpace = true
    · -- The word behind the first space is empty, and the second space goes on.
      have hq : q.chars = [' '] := eq_of_beq hspace
      rw [List.flatMap_cons, hq] at h
      have hnext : c.next.rest = ' ' :: (qs.flatMap Piece.chars ++ '"' :: rest) := by
        rw [Cursor.rest_next, h]
        rfl
      have hempty : (text, c₁) = ([], c.next) :=
        Except.ok.inj (hword.symm.trans (word_end hnext (.inl rfl) _))
      cases hempty
      have hbreaks' : ∀ ch ∈ qs.flatMap Piece.chars, isBreak ch = false := fun ch hch =>
        hbreaks ch (List.mem_append_right _ hch)
      rw [words_blank_blank h hbreaks', hwords _ (Nat.le_succ n)]
      rfl
    · obtain ⟨d, ds, hq, hd⟩ := Piece.exists_head (Bool.eq_false_iff.mpr hspace)
      have hcs : (q :: qs).flatMap Piece.chars ++ '"' :: rest
          = d :: (ds ++ (qs.flatMap Piece.chars ++ '"' :: rest)) := by
        rw [List.flatMap_cons, hq, List.append_assoc]
        rfl
      rw [words_blank_word h hbreaks ⟨d, _, hcs, hd⟩, hfrom]
      rfl

lemma IsRead.space {ps : List Piece} (hps : ps.all Piece.isShared = true)
    (h : c.rest = ' ' :: (ps.flatMap Piece.chars ++ '"' :: rest)) (hread : IsRead c.next ps) :
    IsRead c (.plain ⟨' ', rfl⟩ :: ps) := by
  obtain ⟨text, c₁, more, c₂, htext, hlength, hpasses, hword, hwords⟩ := hread
  have hshorter : c.next.rest.length < c.rest.length := by
    rw [Cursor.rest_next, h]
    exact Nat.lt_succ_self _
  exact ⟨[], c, ' ' :: (text ++ more), c₂, congrArg (' ' :: ·) htext, Nat.le_refl _,
    (Cursor.Passes.next h (by decide)).append hpasses,
    of_lt_fuel fun n _ => word_end h (.inl rfl) n,
    of_lt_fuel fun n hn => words_space hps h (hword _ (Nat.lt_succ_self _))
      fun m hm => hwords m (by omega)⟩

/-- The text of a string is read as its characters. -/
lemma isRead {ps : List Piece} (hps : ps.all Piece.isShared = true)
    (h : c.rest = ps.flatMap Piece.chars ++ '"' :: rest) : IsRead c ps := by
  induction ps generalizing c with
  | nil => exact .nil h
  | cons p ps ih =>
    rw [List.all_cons, Bool.and_eq_true] at hps
    rw [List.flatMap_cons, List.append_assoc] at h
    by_cases hspace : p.isSpace = true
    · obtain rfl := Piece.eq_of_isSpace hspace
      exact .space hps.2 h (ih hps.2 (by rw [Cursor.rest_next, h]; rfl))
    · exact .piece hps.1 (Bool.eq_false_iff.mpr hspace) h fun c' hc' => ih hps.2 hc'

/-- A quoted text is read as its characters, up to the cursor behind the closing quote. -/
lemma exists_scan {ps : List Piece} (hps : ps.all Piece.isShared = true)
    (h : c.rest = quotedChars ps ++ rest) :
    ∃ c', c.Passes (quotedChars ps) c' ∧ Quoted.scan true c = .ok (textOf ps, c') := by
  have hnext : c.next.rest = ps.flatMap Piece.chars ++ '"' :: rest := by
    rw [Cursor.rest_next, h, quotedChars, List.cons_append, List.append_assoc]
    rfl
  obtain ⟨text, c₁, more, c₂, htext, -, hpasses, hword, hwords⟩ := isRead hps hnext
  refine ⟨c₂, (Cursor.Passes.next h (by decide)).append hpasses, ?_⟩
  rw [Quoted.scan, hword _ (Nat.lt_succ_self _)]
  change (words true c₁.rest.length.succ c₁ >>= _) = _
  rw [hwords _ (Nat.lt_succ_self _), textOf_eq hps, ← htext]
  rfl

end ApiLint.Json
