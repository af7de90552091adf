import ApiLint.Proofs.Json.Numerals
import ApiLint.Proofs.Json.Strings
import ApiLint.Proofs.Yaml.Lexing
import Mathlib.Data.List.DropRight

/-!
# The tokens of JSON texts

The tokens of a value as YAML reads them: brackets and braces are those of flow collections, strings
are quoted scalars, and all else is plain. The lexer gets over a value, and over the items and the
members of one, with nothing but its tokens.
-/

namespace ApiLint.Json

open Yaml Yaml.Lexer

/-- The token of a string. -/
def quotedToken (ps : List Piece) : Token := .scalar (String.ofList (textOf ps)) false

/-- The token of a word or a number. -/
def plainToken (cs : List Char) : Token := .scalar (String.ofList cs) true

/-- The token in front of all items or members but the first. -/
def entryTokens (first : Bool) : List Token := if first then [] else [.flowEntry]

namespace Value

mutual

def tokens : Value → List Token
  | .null => [plainToken "null".toList]
  | .bool b => [plainToken (if b then "true".toList else "false".toList)]
  | .number n => [plainToken n.chars]
  | .string ps => [quotedToken ps]
  | .array items _ => .flowSequenceStart :: (itemTokens true items ++ [.flowSequenceEnd])
  | .object members _ => .flowMappingStart :: (memberTokens true members ++ [.flowMappingEnd])

def itemTokens (first : Bool) : List (Spaced Value) → List Token
  | [] => []
  | ⟨_, value, _⟩ :: items => entryTokens first ++ (tokens value ++ itemTokens false items)

def memberTokens (first : Bool) : List (Member Value) → List Token
  | [] => []
  | ⟨name, _, value, _⟩ :: members =>
    entryTokens first ++ (.key :: quotedToken name.value :: .value
      :: (tokens value ++ memberTokens false members))

end

end Value

/-! ### Scalars -/

variable {l l' : Lexer} {ch : Char} {cs rest : List Char}

/-- Remembering a key changes the possible keys only. -/
lemma rememberKey_frame (h : l.rememberKey = .ok l') : ∃ keys, l' = { l with keys } := by
  rw [rememberKey] at h
  split at h
  · cases hforget : l.forgetKey with
    | error fault =>
      rw [hforget] at h
      cases h
    | ok l₁ =>
      rw [hforget] at h
      cases h
      rw [forgetKey] at hforget
      split at hforget
      · split at hforget
        · cases hforget
        · cases hforget
          exact ⟨_, rfl⟩
      · cases hforget
        exact ⟨_, rfl⟩
  · cases h
    exact ⟨_, rfl⟩

lemma readQuoted_eq {text : List Char} {c : Cursor}
    (h : Quoted.scan true l.cursor = .ok (text, c)) :
    l.readQuoted true = l.rememberKey.map fun l =>
      { l with allowsKey := false }.pushTo (.scalar (String.ofList text) false) c := by
  rw [readQuoted]
  cases hremember : l.rememberKey with
  | error fault => rfl
  | ok l' =>
    obtain ⟨keys, rfl⟩ := rememberKey_frame hremember
    change (Quoted.scan true l.cursor >>= _) = _
    rw [h]
    rfl

lemma readPlain_eq {text : List Char} {newLine : Bool} {c : Cursor}
    (h : Plain.scan l.inFlow l.indent l.cursor = (text, newLine, c)) :
    l.readPlain = l.rememberKey.map fun l =>
      { l with allowsKey := newLine }.pushTo (.scalar (String.ofList text) true) c := by
  rw [readPlain]
  cases hremember : l.rememberKey with
  | error fault => rfl
  | ok l' =>
    obtain ⟨keys, rfl⟩ := rememberKey_frame hremember
    have hscan : Plain.scan ({ l with keys } : Lexer).inFlow l.indent l.cursor
        = (text, newLine, c) := h
    simp only [bind, Except.bind, hscan]
    rfl

lemma readToken_quote (h : l.cursor.rest = '"' :: cs) : l.readToken '"' = l.readQuoted true := by
  simp [readToken, atDocumentMark_eq_false h (by decide)]

/-- Characters that begin a plain scalar whatever stands behind them. -/
def plainStarts : List Char := "0123456789tfn".toList

/-- A text begins like a word or a number. -/
def StartsPlain (cs : List Char) : Prop :=
  (∃ ch cs', cs = ch :: cs' ∧ ch ∈ plainStarts)
    ∨ ∃ (d : Digit) (cs' : List Char), cs = '-' :: d.char :: cs'

lemma forall_plainStarts {p : Char → Bool} (h : plainStarts.all p = true)
    (hch : ch ∈ plainStarts) : p ch = true := List.all_eq_true.mp h ch hch

/-- The characters that tell other tokens. -/
def tokenChars : List Char := "-.?:,[]*&!|>'%\"\x7b\x7d".toList

lemma readToken_plainStart (h : l.cursor.rest = ch :: cs) (hch : ch ∈ plainStarts) :
    l.readToken ch = l.readPlain := by
  have hne : ∀ x ∈ tokenChars, (ch == x) = false := fun x hx =>
    (Bool.not_eq_true' _).mp (List.all_eq_true.mp
      (forall_plainStarts (p := fun ch => tokenChars.all (ch != ·)) (by decide) hch) x hx)
  have hmark : l.cursor.atDocumentMark = false :=
    atDocumentMark_eq_false h
      ⟨ne_of_beq_false (hne '-' (by decide)), ne_of_beq_false (hne '.' (by decide))⟩
  have hstarts : l.startsPlain ch = true :=
    Bool.or_eq_true_iff.mpr (.inl (forall_plainStarts (p := fun ch => !isGap (some ch)
      && !"-?:,[]#&*!|>'%@\"\x7b\x7d".toList.contains ch && ch != Char.ofNat 0x60) (by decide) hch))
  simp (disch := decide) only [readToken, hne, hmark, hstarts, Bool.false_and, Bool.and_false,
    if_neg Bool.false_ne_true, if_true]

lemma readToken_minus {d : Digit} (h : l.cursor.rest = '-' :: d.char :: cs) :
    l.readToken '-' = l.readPlain := by
  -- A minus may start a document mark or an entry of a block, but not in front of a digit.
  have hmark : l.cursor.atDocumentMark = false := by
    have hminus : d.char ≠ '-' := by
      clear h
      revert d
      decide
    unfold Cursor.atDocumentMark
    rw [h]
    split
    · next heq => exact absurd (List.cons.inj (List.cons.inj heq).2).1 hminus
    · next heq => cases heq
    · rfl
  have hgap : isGap (l.cursor.peekAt 1) = false := by
    rw [Cursor.peekAt, h, List.getElem?_cons_succ, List.getElem?_cons_zero]
    clear h
    revert d
    decide
  simp [readToken, hmark, hgap, startsPlain]

variable {d : Nat} {ts : List Token} {key : Bool}

/-- A word or a number in a flow collection. -/
lemma leads_plain {text : List Char} (hstarts : StartsPlain text)
    (hword : text.all Plain.isWordChar = true) (hends : Plain.EndsFlow rest) :
    Leads ⟨d + 1, ts, text ++ rest, key⟩ ⟨d + 1, ts ++ [plainToken text], rest, false⟩ := by
  obtain ⟨ch, cs, rfl⟩ : ∃ ch cs, text = ch :: cs := by
    rcases hstarts with ⟨ch, cs, rfl, -⟩ | ⟨d, cs, rfl⟩ <;> exact ⟨_, _, rfl⟩
  have hsolid : isSolid ch = true := by
    rcases hstarts with ⟨_, _, heq, hch⟩ | ⟨_, _, heq⟩ <;> cases heq
    · exact forall_plainStarts (by decide) hch
    · rfl
  refine leads_scalar hsolid (fun l hdepth (hrest : _ = ch :: (cs ++ rest)) => ?_) key
  have hflow := inFlow_eq_true hdepth
  obtain ⟨newLine, c, hscan, hc⟩ :=
    Plain.exists_scan hrest (List.all_eq_true.mp hword) hends l.indent
  have hread : l.readToken ch = l.readPlain := by
    rcases hstarts with ⟨_, _, heq, hch⟩ | ⟨_, _, heq⟩ <;> cases heq
    · exact readToken_plainStart hrest hch
    · exact readToken_minus hrest
  refine ⟨newLine, c, by rw [hc, List.dropWhile_idempotent], ?_, ?_⟩
  · rw [hc, List.length_append]
    exact Nat.le_add_left_of_le (List.dropWhile_suffix _).length_le
  · rw [hread]
    exact readPlain_eq (by rw [hflow]; exact hscan)

/-- A string. -/
lemma leads_quoted {ps : List Piece} (hps : ps.all Piece.isShared = true) :
    Leads ⟨d, ts, quotedChars ps ++ rest, key⟩ ⟨d, ts ++ [quotedToken ps], rest, false⟩ := by
  refine leads_scalar (by decide) (fun l _ (hrest : _ = '"' :: _) => ?_) key
  obtain ⟨c, hpasses, hscan⟩ := exists_scan (c := l.cursor) hps hrest
  have hc : c.rest = rest := List.append_cancel_left (hpasses.rest.symm.trans hrest)
  have hshorter := hpasses.length_lt
  rw [hrest] at hshorter
  refine ⟨false, c, by rw [hc], Nat.le_of_lt_succ hshorter, ?_⟩
  rw [readToken_quote hrest]
  exact readQuoted_eq hscan

/-- The name of a member with its colon. -/
lemma leads_name {ps : List Piece} {k : Nat} (hps : ps.all Piece.isShared = true)
    (hlimit : (quotedChars ps).length + k ≤ keyLimit) :
    Leads ⟨d + 1, ts, quotedChars ps ++ (List.replicate k ' ' ++ ':' :: rest), true⟩
      ⟨d + 1, ts ++ [.key, quotedToken ps, .value], rest, false⟩ := by
  refine leads_key (by decide) hlimit fun l (hrest : _ = '"' :: _) => ?_
  obtain ⟨c, hpasses, hscan⟩ := exists_scan hps hrest
  have hc : c.rest = List.replicate k ' ' ++ ':' :: rest :=
    List.append_cancel_left (hpasses.rest.symm.trans hrest)
  have hshorter := hpasses.length_lt
  rw [hrest] at hshorter
  refine ⟨c, hpasses, hc, Nat.le_of_lt_succ hshorter, ?_⟩
  rw [readToken_quote hrest]
  exact readQuoted_eq hscan

/-! ### White space -/

lemma dropWhile_blankChars {bs : List Blank} (h : bs.all Blank.isShared = true) (cs : List Char) :
    (blankChars bs ++ cs).dropWhile isWhite = cs.dropWhile isWhite := by
  refine List.dropWhile_append_of_pos fun c hc => ?_
  obtain ⟨b, hb, rfl⟩ := List.mem_map.mp hc
  have hb := List.all_eq_true.mp h b hb
  cases b with
  | tab => cases hb
  | _ => rfl

lemma leads_blanks {bs : List Blank} (h : bs.all Blank.isShared = true) :
    Leads ⟨d, ts, blankChars bs ++ cs, key⟩ ⟨d, ts, cs, key⟩ :=
  .of_white (dropWhile_blankChars h cs)

lemma endsFlow_blanks {bs : List Blank} (h : bs.all Blank.isShared = true)
    (hends : Plain.EndsFlow cs) : Plain.EndsFlow (blankChars bs ++ cs) := by
  rwa [Plain.EndsFlow, dropWhile_blankChars h]

lemma endsFlow_cons (h : Plain.isFlowIndicator ch = true) : Plain.EndsFlow (ch :: cs) :=
  ⟨ch, cs, dropWhile_white_of_solid (Plain.isSolid_of_isFlowIndicator h) cs, h⟩

/-- White space in front of a colon is made of spaces. -/
lemma blankChars_spaces {bs : List Blank} (h : bs.all (· == .space) = true) :
    blankChars bs = List.replicate bs.length ' ' := by
  rw [← List.length_map Blank.char]
  refine List.eq_replicate_length.mpr fun c hc => ?_
  obtain ⟨b, hb, rfl⟩ := List.mem_map.mp hc
  rw [eq_of_beq (List.all_eq_true.mp h b hb)]
  rfl

/-- Where a key is not asked for it does not matter whether there may be one. -/
lemma leads_without_key : Leads ⟨d, ts, cs, key⟩ ⟨d, ts, cs, false⟩ :=
  fun l h => ⟨l, .refl, h.calm, h.depth, h.words, h.chars, nofun⟩

/-! ### Values -/

namespace Numeral

lemma startsPlain_chars (n : Numeral) : StartsPlain n.chars := by
  obtain ⟨d, ds, hwhole⟩ := n.whole.exists_digits
  have hdigit : d.char ∈ plainStarts := by
    clear hwhole
    revert d
    decide
  obtain ⟨negative, whole, fraction, exponent⟩ := n
  dsimp only at hwhole
  rw [chars, hwhole]
  cases negative with
  | true => exact .inr ⟨d, _, rfl⟩
  | false => exact .inl ⟨d.char, _, rfl, hdigit⟩

lemma all_isWordChar (n : Numeral) : n.chars.all Plain.isWordChar = true :=
  List.all_eq_true.mpr (forall_numeric (by decide) n.chars_subset)

end Numeral

namespace Value

lemma endsFlow_items (items : List (Spaced Value)) (hends : Plain.EndsFlow rest) :
    Plain.EndsFlow (itemChars false items ++ rest) := by
  cases items with
  | nil => exact hends
  | cons item items => exact endsFlow_cons rfl

lemma endsFlow_members (members : List (Member Value)) (hends : Plain.EndsFlow rest) :
    Plain.EndsFlow (memberChars false members ++ rest) := by
  cases members with
  | nil => exact hends
  | cons member members => exact endsFlow_cons rfl

/-- The comma in front of all items or members but the first. -/
lemma leads_entry (ts : List Token) (first : Bool) :
    Leads ⟨d, ts, (if first then [] else [',']) ++ cs, first⟩
      ⟨d, ts ++ entryTokens first, cs, true⟩ := by
  cases first with
  | true =>
    rw [entryTokens, if_pos rfl, if_pos rfl, List.append_nil]
    exact .refl _
  | false => exact leads_flowEntry d ts cs false

/-- An object, given how the lexer gets over its members. -/
lemma leads_braces (d : Nat) (ts : List Token) (rest : List Char) (key : Bool)
    {inner : List Char} {tokens : List Token} {close : List Blank}
    (hinner : ∀ ts rest, Plain.EndsFlow rest →
      Leads ⟨d + 1, ts, inner ++ rest, true⟩ ⟨d + 1, ts ++ tokens, rest, false⟩)
    (hclose : close.all Blank.isShared = true) :
    Leads ⟨d, ts, '\x7b' :: (inner ++ (blankChars close ++ '\x7d' :: rest)), key⟩
      ⟨d, ts ++ .flowMappingStart :: (tokens ++ [.flowMappingEnd]), rest, false⟩ := by
  have hends : Plain.EndsFlow (blankChars close ++ '\x7d' :: rest) :=
    endsFlow_blanks hclose (endsFlow_cons rfl)
  have hleads := (leads_mappingStart d ts _ key).trans
    ((hinner _ _ hends).trans ((leads_blanks hclose).trans (leads_mappingEnd _ _ _ _)))
  simpa only [List.append_assoc, List.cons_append, List.nil_append] using hleads

mutual

/-- The lexer gets over a value in a collection with its tokens. -/
theorem leads_value {v : Value} (hv : v.isShared = true) {rest : List Char}
    (hends : Plain.EndsFlow rest) {d : Nat} {ts : List Token} {key : Bool} :
    Leads ⟨d + 1, ts, v.chars ++ rest, key⟩ ⟨d + 1, ts ++ v.tokens, rest, false⟩ := by
  match v with
  | .null => exact leads_plain (.inl ⟨_, _, rfl, by decide⟩) (by decide) hends
  | .bool true => exact leads_plain (.inl ⟨_, _, rfl, by decide⟩) (by decide) hends
  | .bool false => exact leads_plain (.inl ⟨_, _, rfl, by decide⟩) (by decide) hends
  | .number n => exact leads_plain n.startsPlain_chars n.all_isWordChar hends
  | .string ps => exact leads_quoted (by rwa [isShared] at hv)
  | .array items close =>
    rw [isShared, Bool.and_eq_true] at hv
    have hends : Plain.EndsFlow (blankChars close ++ ']' :: rest) :=
      endsFlow_blanks hv.2 (endsFlow_cons rfl)
    have hitems := (leads_sequenceStart (d + 1) ts _ key).trans
      ((leads_items hv.1 true hends).trans ((leads_blanks hv.2).trans (leads_sequenceEnd _ _ _ _)))
    simpa only [chars, tokens, List.cons_append, List.append_assoc, List.nil_append] using hitems
  | .object members close =>
    rw [isShared, Bool.and_eq_true] at hv
    have hmembers := leads_braces (d + 1) ts rest key
      (fun _ _ hends => leads_members hv.1 true hends) hv.2
    simpa only [chars, tokens, List.cons_append, List.append_assoc, List.nil_append] using hmembers

theorem leads_items {items : List (Spaced Value)} (hitems : itemsShared items = true)
    (first : Bool) {rest : List Char} (hends : Plain.EndsFlow rest) {d : Nat} {ts : List Token} :
    Leads ⟨d + 1, ts, itemChars first items ++ rest, first⟩
      ⟨d + 1, ts ++ itemTokens first items, rest, false⟩ := by
  match items with
  | [] =>
    rw [itemTokens, List.append_nil]
    exact leads_without_key
  | ⟨before, value, after⟩ :: items =>
    simp only [itemsShared, Bool.and_eq_true] at hitems
    obtain ⟨⟨⟨hbefore, hvalue⟩, hafter⟩, hothers⟩ := hitems
    have hends' := endsFlow_blanks hafter (endsFlow_items items hends)
    have hleads := (leads_entry ts first).trans ((leads_blanks hbefore).trans
      ((leads_value hvalue hends').trans ((leads_blanks hafter).trans
        (leads_items (d := d) hothers false hends))))
    simpa only [itemChars, itemTokens, List.append_assoc] using hleads

theorem leads_members {members : List (Member Value)} (hmembers : membersShared members = true)
    (first : Bool) {rest : List Char} (hends : Plain.EndsFlow rest) {d : Nat} {ts : List Token} :
    Leads ⟨d + 1, ts, memberChars first members ++ rest, first⟩
      ⟨d + 1, ts ++ memberTokens first members, rest, false⟩ := by
  match members with
  | [] =>
    rw [memberTokens, List.append_nil]
    exact leads_without_key
  | ⟨name, before, value, after⟩ :: members =>
    simp only [membersShared, isSharedName, Bool.and_eq_true, decide_eq_true_eq] at hmembers
    obtain ⟨⟨⟨⟨⟨⟨⟨hname, hpieces⟩, hcolon⟩, hlimit⟩, hbefore⟩, hvalue⟩, hafter⟩, hothers⟩ :=
      hmembers
    have hends' := endsFlow_blanks hafter (endsFlow_members members hends)
    have hleads := (leads_entry ts first).trans ((leads_blanks hname).trans
      ((leads_name hpieces hlimit).trans ((leads_blanks hbefore).trans
        ((leads_value hvalue hends').trans ((leads_blanks hafter).trans
          (leads_members (d := d) hothers false hends))))))
    simpa only [memberChars, memberTokens, Spaced.chars, blankChars_spaces hcolon,
      List.append_assoc, List.cons_append, List.nil_append] using hleads

end

end Value

/-! ### Allowed characters -/

lemma all_blankChars (bs : List Blank) : (blankChars bs).all isAllowed = true := by
  rw [blankChars, List.all_map]
  refine List.all_eq_true.mpr fun b _ => ?_
  cases b <;> rfl

lemma all_pieces {ps : List Piece} (hps : ps.all Piece.isShared = true) :
    (quotedChars ps).all isAllowed = true := by
  have hpiece : ∀ p ∈ ps, p.chars.all isAllowed = true := by
    intro p hp
    have hp := List.all_eq_true.mp hps p hp
    cases p with
    | plain c =>
      rw [Piece.isShared, Bool.and_eq_true] at hp
      rw [Piece.chars, List.all_cons, hp.1]
      rfl
    | escape e => cases e <;> rfl
    | unit u =>
      have hdigit : ∀ d : HexDigit, isAllowed d.char = true := by
        rintro ⟨value, capital⟩
        revert value capital
        decide
      simp [Piece.chars, CodeUnit.hexDigits, hdigit]
      decide
  have hpieces : (ps.flatMap Piece.chars).all isAllowed = true := by
    rw [List.all_flatMap]
    exact List.all_eq_true.mpr hpiece
  rw [quotedChars, List.all_cons, List.all_append, hpieces]
  rfl

namespace Value

mutual

/-- A shared value is written with characters that YAML allows. -/
theorem all_chars {v : Value} (hv : v.isShared = true) : v.chars.all isAllowed = true := by
  match v with
  | .null => rfl
  | .bool b => cases b <;> rfl
  | .number n => exact List.all_eq_true.mpr (forall_numeric (by decide) n.chars_subset)
  | .string ps =>
    rw [isShared] at hv
    exact all_pieces hv
  | .array items close =>
    rw [isShared, Bool.and_eq_true] at hv
    rw [chars, List.all_cons, List.all_append, List.all_append, all_itemChars hv.1, all_blankChars]
    rfl
  | .object members close =>
    rw [isShared, Bool.and_eq_true] at hv
    rw [chars, List.all_cons, List.all_append, List.all_append, all_memberChars hv.1,
      all_blankChars]
    rfl

theorem all_itemChars {items : List (Spaced Value)} (h : itemsShared items = true) {first : Bool} :
    (itemChars first items).all isAllowed = true := by
  match items with
  | [] => rfl
  | ⟨before, value, after⟩ :: items =>
    simp only [itemsShared, Bool.and_eq_true] at h
    simp only [itemChars, List.all_append, all_blankChars, all_chars h.1.1.2, all_itemChars h.2]
    cases first <;> rfl

theorem all_memberChars {members : List (Member Value)} (h : membersShared members = true)
    {first : Bool} : (memberChars first members).all isAllowed = true := by
  match members with
  | [] => rfl
  | ⟨name, before, value, after⟩ :: members =>
    simp only [membersShared, isSharedName, Bool.and_eq_true] at h
    obtain ⟨⟨⟨⟨⟨⟨⟨-, hpieces⟩, -⟩, -⟩, -⟩, hvalue⟩, -⟩, hothers⟩ := h
    simp only [memberChars, Spaced.chars, List.all_append, List.all_cons, all_blankChars,
      all_pieces hpieces, all_chars hvalue, all_memberChars hothers]
    cases first <;> rfl

end

end Value

/-- A shared text is read as the tokens of its root. -/
theorem Document.tokensOf_text {d : Document} (h : d.isShared = true) :
    (tokensOf d.text).tokens.map PlacedToken.token = d.root.tokens ++ [.streamEnd]
      ∧ (tokensOf d.text).fault = none := by
  simp only [Document.isShared, Bool.and_eq_true] at h
  obtain ⟨⟨hbefore, hroot⟩, hafter⟩ := h
  refine tokensOf_of_leads ?_ (?_ : Leads _ ⟨_, _, _, false⟩)
  · rw [text, String.toList_ofList, List.all_append, List.all_append, all_blankChars,
      all_blankChars, Value.all_chars hroot]
    rfl
  · rw [root, Value.isShared, Bool.and_eq_true] at hroot
    have hleads := (leads_blanks hbefore).trans
      ((Value.leads_braces 0 [] (blankChars d.after ++ []) true
        (fun _ _ hends => Value.leads_members hroot.1 true hends) hroot.2).trans
          (leads_blanks hafter))
    simpa only [text, root, String.toList_ofList, Value.chars, Value.tokens, List.nil_append,
      List.append_nil, List.cons_append, List.append_assoc] using hleads

end ApiLint.Json
