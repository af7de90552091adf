import ApiLint.Proofs.Outcome
import ApiLint.Yaml

/-!
# Texts that cannot be read

The tokens of a text are read in one pass and its nodes in another. Whatever the text is, both fail
as texts that are no YAML do, but for two places: an escape between double quotes can name a code
point beyond the last one, and a directive can give a version with too many digits.
-/

namespace ApiLint

namespace Yaml

/-- The ways in which the nodes of a text cannot be read. -/
inductive ScanFault : YamlFault → Prop
  | invalid : ScanFault .invalid
  /-- An escape gives a number beyond the last code point. -/
  | codePoint {n : Nat} (h : 0x10ffff < n) : ScanFault (.codePoint n)
  /-- The version of a directive has too many digits. -/
  | digits {n : Nat} (h : NumberError.digitLimit < n) : ScanFault (.number (.tooManyDigits n))

/-- An outcome that is nothing else than read or a fault of reading. -/
abbrev Scans {α : Type} (x : Except YamlFault α) : Prop := OnlyFails ScanFault x

lemma scans_invalid {α : Type} : Scans (.error .invalid : Except YamlFault α) := .error .invalid

/-! ### Quoted scalars -/

namespace Quoted

lemma scans_breaks (n : Nat) (c : Cursor) : Scans (breaks n c) := by
  induction n generalizing c with
  | zero => exact .ok _
  | succ n ih =>
    rw [breaks]
    split
    · exact scans_invalid
    · dsimp only
      split
      · exact .ok _
      · exact (ih _).bind fun _ _ => .ok _

lemma scans_spaces (c : Cursor) : Scans (spaces c) := by
  rw [spaces]
  repeat' split
  · exact scans_invalid
  · exact .ok _
  · exact (scans_breaks _ _).bind fun _ _ => .ok _

lemma scans_codePoint (n : Nat) : Scans (codePoint n) := by
  rw [codePoint]
  split
  · next h => exact .error (.codePoint h)
  · split <;> exact .ok _

lemma scans_escape (c : Cursor) : Scans (escape c) := by
  rw [escape]
  split
  · exact scans_invalid
  · split
    · exact .ok _
    · split
      · split
        · exact (scans_codePoint _).bind fun _ _ => .ok _
        · exact scans_invalid
      · split
        · exact scans_breaks _ _
        · exact scans_invalid

lemma scans_word (double : Bool) (n : Nat) (c : Cursor) : Scans (word double n c) := by
  induction n generalizing c with
  | zero => exact .ok _
  | succ n ih =>
    rw [word]
    dsimp only
    split
    · exact (ih _).bind fun _ _ => .ok _
    · exact (ih _).bind fun _ _ => .ok _
    · exact (ih _).bind fun _ _ => .ok _
    · exact (ih _).bind fun _ _ => .ok _
    · exact (scans_escape _).bind fun _ _ => (ih _).bind fun _ _ => .ok _
    · exact .ok _

lemma scans_words (double : Bool) (n : Nat) (c : Cursor) : Scans (words double n c) := by
  induction n generalizing c with
  | zero => exact .ok _
  | succ n ih =>
    rw [words]
    repeat' split
    · exact .ok _
    · exact (scans_spaces c).bind fun _ _ => (scans_word _ _ _).bind fun _ _ =>
        (ih _).bind fun _ _ => .ok _
    · exact .ok _
    · exact (scans_spaces c).bind fun _ _ => (scans_word _ _ _).bind fun _ _ =>
        (ih _).bind fun _ _ => .ok _

lemma scans_scan (double : Bool) (c : Cursor) : Scans (scan double c) :=
  (scans_word _ _ _).bind fun _ _ => (scans_words _ _ _).bind fun _ _ => .ok _

end Quoted

/-! ### Block scalars -/

namespace Block

lemma scans_increment? (c : Cursor) : Scans (increment? c) := by
  rw [increment?]
  split
  · split
    · exact scans_invalid
    · split <;> exact .ok _
  · exact .ok _

lemma scans_header (c : Cursor) : Scans (header c) := by
  have hend : ∀ (marks : Chomping × Option Nat) (c : Cursor),
      Scans (if endsWord c.peek then pure (marks.1, marks.2, c) else throw .invalid) := by
    intro marks c
    split
    · exact .ok _
    · exact scans_invalid
  rw [header]
  split
  · exact (scans_increment? _).bind fun m _ => hend (_, m.1) m.2
  · refine (scans_increment? _).bind fun m _ => ?_
    dsimp only
    split
    · exact hend (_, _) m.2.next
    · exact hend (_, _) m.2

lemma scans_restOfLine (c : Cursor) : Scans (restOfLine c) := by
  rw [restOfLine]
  generalize (if c.skipSpaces.at? '#' then _ else _ : Cursor) = d
  split
  · exact .ok _
  · split
    · exact .ok _
    · exact scans_invalid

lemma scans_scan (folded : Bool) (parent : Int) (c : Cursor) : Scans (scan folded parent c) := by
  rw [scan]
  exact (scans_header _).bind fun _ _ => (scans_restOfLine _).bind fun _ _ => .ok _

end Block

/-! ### Tokens -/

namespace Lexer

variable {l : Lexer}

lemma scans_forgetKey (l : Lexer) : Scans l.forgetKey := by
  rw [forgetKey]
  split
  · split
    · exact scans_invalid
    · exact .ok _
  · exact .ok _

lemma scans_forgetStaleKeys (l : Lexer) : Scans l.forgetStaleKeys := by
  rw [forgetStaleKeys]
  split
  · exact scans_invalid
  · exact .ok _

lemma scans_rememberKey (l : Lexer) : Scans l.rememberKey := by
  rw [rememberKey]
  split
  · exact (scans_forgetKey l).bind fun _ _ => .ok _
  · exact .ok _

lemma scans_takeName (c : Cursor) : Scans (takeName c) := by
  rw [takeName]
  split
  · exact scans_invalid
  · exact .ok _

lemma scans_addressEscapes (cs : List Char) : Scans (addressEscapes cs) := by
  fun_induction addressEscapes cs with
  | case1 a b cs a' ha b' hb ih => exact ih.bind fun _ _ => .ok _
  | case2 => exact scans_invalid
  | case3 => exact scans_invalid
  | case4 => exact .ok _

lemma scans_addressPieces (n : Nat) (c : Cursor) : Scans (addressPieces n c) := by
  induction n generalizing c with
  | zero => exact .ok _
  | succ n ih =>
    rw [addressPieces]
    dsimp only
    split
    · refine (scans_addressEscapes _).bind fun _ _ => ?_
      split
      · exact scans_invalid
      · exact (ih _).bind fun _ _ => .ok _
    · exact .ok _

lemma scans_takeAddress (c : Cursor) : Scans (takeAddress c) := by
  rw [takeAddress]
  refine (scans_addressPieces _ _).bind fun _ _ => ?_
  dsimp only
  split
  · exact scans_invalid
  · exact .ok _

lemma scans_takeHandle (c : Cursor) : Scans (takeHandle c) := by
  rw [takeHandle]
  repeat' split
  · exact scans_invalid
  · exact .ok _
  · exact .ok _
  · exact scans_invalid

lemma scans_takeVersion (c : Cursor) : Scans (takeVersion c) := by
  unfold takeVersion
  extract_lets number
  have hnumber : ∀ c, Scans (number c) := by
    intro c
    dsimp only [number]
    split
    · exact scans_invalid
    · split
      · next h => exact .error (.digits h)
      · exact .ok _
  refine (hnumber _).bind fun _ _ => ?_
  dsimp only
  split
  · exact scans_invalid
  · refine (hnumber _).bind fun _ _ => ?_
    split
    · exact .ok _
    · exact scans_invalid

lemma scans_takeTagHandle (c : Cursor) : Scans (takeTagHandle c) := by
  rw [takeTagHandle]
  refine (scans_takeHandle _).bind fun _ _ => ?_
  dsimp only
  split
  · exact scans_invalid
  · refine (scans_takeAddress _).bind fun _ _ => ?_
    split
    · exact .ok _
    · exact scans_invalid

lemma scans_readDirective (l : Lexer) : Scans l.readDirective := by
  rw [readDirective]
  refine (scans_takeName _).bind fun _ _ => ?_
  dsimp only
  split
  · exact scans_invalid
  · split
    · exact (scans_takeVersion _).bind fun _ _ => (Block.scans_restOfLine _).bind fun _ _ => .ok _
    · exact (scans_takeTagHandle _).bind fun _ _ => (Block.scans_restOfLine _).bind fun _ _ => .ok _
    · exact (Block.scans_restOfLine _).bind fun _ _ => .ok _

lemma scans_readTag (l : Lexer) : Scans l.readTag := by
  -- Every form of a tag ends with the same check for a gap.
  have hend : ∀ (token : Token) (c : Cursor), Scans
      (if endsWord c.peek then pure (l.pushTo token c) else throw .invalid) := by
    intro token c
    split
    · exact .ok _
    · exact scans_invalid
  rw [readTag]
  dsimp only
  split
  · refine (scans_takeAddress _).bind fun _ _ => ?_
    split
    · exact hend _ _
    · exact scans_invalid
  · split
    · exact hend _ _
    · split
      · exact (scans_takeHandle _).bind fun _ _ => (scans_takeAddress _).bind fun _ _ => hend _ _
      · exact (scans_takeAddress _).bind fun _ _ => hend _ _

lemma scans_readAnchor (l : Lexer) (token : String → Token) : Scans (l.readAnchor token) := by
  rw [readAnchor]
  refine (scans_takeName _).bind fun _ _ => ?_
  dsimp only
  split
  · exact .ok _
  · exact scans_invalid

lemma scans_leaveDocument (l : Lexer) : Scans l.leaveDocument :=
  (scans_forgetKey _).bind fun _ _ => .ok _

lemma scans_readFlowStart (l : Lexer) (token : Token) : Scans (l.readFlowStart token) :=
  (scans_rememberKey _).bind fun _ _ => .ok _

lemma scans_readFlowEnd (l : Lexer) (token : Token) : Scans (l.readFlowEnd token) := by
  refine (scans_forgetKey _).bind fun _ _ => ?_
  split
  · exact .ok _
  · exact scans_invalid

lemma scans_readFlowEntry (l : Lexer) : Scans l.readFlowEntry :=
  (scans_forgetKey _).bind fun _ _ => .ok _

lemma scans_openHere (l : Lexer) (token : Token) : Scans (l.openHere token) := by
  rw [openHere]
  repeat' split
  · exact .ok _
  · exact scans_invalid
  · exact .ok _
  · exact .ok _

lemma scans_readBlockEntry (l : Lexer) : Scans l.readBlockEntry :=
  (scans_openHere _ _).bind fun _ _ => (scans_forgetKey _).bind fun _ _ => .ok _

lemma scans_readKey (l : Lexer) : Scans l.readKey :=
  (scans_openHere _ _).bind fun _ _ => (scans_forgetKey _).bind fun _ _ => .ok _

lemma scans_readValue (l : Lexer) : Scans l.readValue := by
  rw [readValue]
  split
  · exact .ok _
  · exact (scans_openHere _ _).bind fun _ _ => (scans_forgetKey _).bind fun _ _ => .ok _

lemma scans_readBlockScalar (l : Lexer) (folded : Bool) : Scans (l.readBlockScalar folded) :=
  (scans_forgetKey _).bind fun _ _ => (Block.scans_scan _ _ _).bind fun _ _ => .ok _

lemma scans_readQuoted (l : Lexer) (double : Bool) : Scans (l.readQuoted double) :=
  (scans_rememberKey _).bind fun _ _ => (Quoted.scans_scan _ _).bind fun _ _ => .ok _

lemma scans_readPlain (l : Lexer) : Scans l.readPlain :=
  (scans_rememberKey _).bind fun _ _ => .ok _

lemma scans_readToken (l : Lexer) (ch : Char) : Scans (l.readToken ch) := by
  rw [readToken]
  exact .ite ((scans_leaveDocument l).bind fun _ _ => scans_readDirective _)
    <| .ite ((scans_leaveDocument l).bind fun _ _ => .ok _)
    <| .ite (scans_readFlowStart l _) <| .ite (scans_readFlowStart l _)
    <| .ite (scans_readFlowEnd l _) <| .ite (scans_readFlowEnd l _)
    <| .ite (scans_readFlowEntry l) <| .ite (scans_readBlockEntry l)
    <| .ite (scans_readKey l) <| .ite (scans_readValue l)
    <| .ite ((scans_rememberKey l).bind fun _ _ => scans_readAnchor _ _)
    <| .ite ((scans_rememberKey l).bind fun _ _ => scans_readAnchor _ _)
    <| .ite ((scans_rememberKey l).bind fun _ _ => scans_readTag _)
    <| .ite (scans_readBlockScalar l _) <| .ite (scans_readBlockScalar l _)
    <| .ite (scans_readQuoted l _) <| .ite (scans_readQuoted l _)
    <| .ite (scans_readPlain l) scans_invalid

/-- The tokens of a text end in the expected ways only. -/
lemma scanFault_of_run {n : Nat} {fault : YamlFault} (h : (run n l).fault = some fault) :
    ScanFault fault := by
  induction n generalizing l with
  | zero =>
    cases h
    exact .invalid
  | succ n ih =>
    rw [run] at h
    split at h
    · next heq =>
      cases h
      exact scans_forgetStaleKeys _ _ heq
    · dsimp only at h
      split at h
      · split at h
        · next heq =>
          cases h
          exact scans_leaveDocument _ _ heq
        · cases h
      · split at h
        · next heq =>
          cases h
          exact scans_readToken _ _ _ heq
        · exact ih h

lemma scanFault_of_tokensOf {text : String} {fault : YamlFault}
    (h : (tokensOf text).fault = some fault) : ScanFault fault := by
  rw [tokensOf] at h
  split at h
  · exact scanFault_of_run h
  · cases h
    exact .invalid

end Lexer

/-! ### Nodes -/

namespace Descend

variable {α β : Type}

/-- A part of the descent that, among tokens that end in the expected ways only, fails in these ways
only, and leaves such tokens. -/
def Safe (x : Descend α) : Prop :=
  ∀ d : Descent, (∀ fault, d.fault = some fault → ScanFault fault) →
    match x.run d with
    | .error fault => ScanFault fault
    | .ok (_, d') => ∀ fault, d'.fault = some fault → ScanFault fault

namespace Safe

lemma pure (a : α) : Safe (pure a) := fun _ hd => hd

lemma invalid : Safe (throw .invalid : Descend α) := fun _ _ => .invalid

lemma bind {x : Descend α} {f : α → Descend β} (hx : Safe x) (hf : ∀ a, Safe (f a)) :
    Safe (x >>= f) := by
  intro d hd
  have hrun := hx d hd
  rw [StateT.run_bind]
  cases h : x.run d with
  | error fault =>
    rw [h] at hrun
    exact hrun
  | ok r =>
    rw [h] at hrun
    exact hf r.1 r.2 hrun

lemma get : Safe (get : Descend Descent) := fun _ hd => hd

lemma modify {f : Descent → Descent} (h : ∀ d, (f d).fault = d.fault) :
    Safe (modify f : Descend PUnit) := by
  intro d hd fault hfault
  exact hd fault ((h d).symm.trans hfault)

lemma ite {c : Prop} [Decidable c] {x y : Descend α} (hx : Safe x) (hy : Safe y) :
    Safe (if c then x else y) := by
  split
  · exact hx
  · exact hy

end Safe

lemma safe_peek : Safe peek := by
  rintro ⟨tokens, fault, handles, anchors⟩ hd
  cases tokens with
  | cons t ts => exact hd
  | nil =>
    cases fault with
    | none => exact .invalid
    | some fault => exact hd fault rfl

lemma safe_take : Safe take :=
  safe_peek.bind fun _ => .bind (.modify fun _ => rfl) fun _ => .pure _

lemma safe_at? (tokens : List Token) : Safe (at? tokens) := safe_peek.bind fun _ => .pure _

lemma safe_expect (token : Token) : Safe (expect token) :=
  safe_take.bind fun _ => .ite (.pure _) .invalid

lemma safe_tagName (handle : Option String) (suffix : String) : Safe (tagName handle suffix) := by
  unfold tagName
  split
  · exact .pure _
  · refine Safe.get.bind fun _ => ?_
    split
    · exact .pure _
    · exact .invalid

lemma safe_properties (n : Nat) (p : Properties) : Safe (properties n p) := by
  induction n generalizing p with
  | zero => exact .pure p
  | succ n ih =>
    rw [properties]
    refine safe_peek.bind fun t => ?_
    split
    · exact safe_take.bind fun _ => ih _
    · exact safe_take.bind fun _ => (safe_tagName _ _).bind fun _ => ih _
    · exact .pure p

lemma safe_keep (anchor : Option String) (node : Node) : Safe (keep anchor node) := by
  unfold keep
  split
  · exact .pure _
  · refine Safe.get.bind fun _ => .ite (Safe.invalid.bind fun _ => ?_) ?_
    · exact .bind (.modify fun _ => rfl) fun _ => .pure _
    · exact .bind (.modify fun _ => rfl) fun _ => .pure _

/-- The readers of nodes and of the parts of collections, down to a depth. -/
structure SafeAt (n : Nat) : Prop where
  node (setting : Setting) : Safe (node setting n)
  nodeUnless (setting : Setting) (ends : List Token) (mark : Mark) :
    Safe (nodeUnless setting ends mark n)
  blockItems : Safe (blockItems n)
  flatItems : Safe (flatItems n)
  blockEntries : Safe (blockEntries n)
  entryValue (setting : Setting) (ends : List Token) : Safe (entryValue setting ends n)
  flowItems (first : Bool) : Safe (flowItems n first)
  flowEntries (first : Bool) : Safe (flowEntries n first)

namespace SafeAt

variable {n : Nat}

lemma node_succ (h : SafeAt n) (setting : Setting) : Safe (Descend.node setting (n + 1)) := by
  rw [Descend.node]
  refine safe_peek.bind fun t => ?_
  split
  · refine safe_take.bind fun _ => Safe.get.bind fun _ => ?_
    split
    · exact .pure _
    · exact .invalid
  · refine (safe_properties _ _).bind fun p => safe_peek.bind fun t => ?_
    dsimp only
    split
    · exact safe_take.bind fun _ => safe_keep _ _
    · exact safe_take.bind fun _ => (h.flowItems _).bind fun _ => safe_keep _ _
    · exact safe_take.bind fun _ => (h.flowEntries _).bind fun _ => safe_keep _ _
    · refine .ite (h.flatItems.bind fun _ => safe_keep _ _) <| .ite ?_ <| .ite ?_
        <| .ite ?_ .invalid
      · exact safe_take.bind fun _ => h.blockItems.bind fun _ => safe_keep _ _
      · exact safe_take.bind fun _ => h.blockEntries.bind fun _ => safe_keep _ _
      · exact safe_keep _ _

lemma nodeUnless_succ (h : SafeAt n) (setting : Setting) (ends : List Token) (mark : Mark) :
    Safe (Descend.nodeUnless setting ends mark (n + 1)) :=
  (safe_at? ends).bind fun _ => .ite (.pure _) (h.node setting)

lemma blockItems_succ (h : SafeAt n) : Safe (Descend.blockItems (n + 1)) := by
  rw [Descend.blockItems]
  refine safe_take.bind fun t => ?_
  split
  · exact (h.nodeUnless _ _ _).bind fun _ => h.blockItems.bind fun _ => .pure _
  · exact .pure _
  · exact .invalid

lemma flatItems_succ (h : SafeAt n) : Safe (Descend.flatItems (n + 1)) :=
  (safe_at? _).bind fun _ => .ite (safe_take.bind fun _ => (h.nodeUnless _ _ _).bind fun _ =>
    h.flatItems.bind fun _ => .pure _) (.pure _)

lemma blockEntries_succ (h : SafeAt n) : Safe (Descend.blockEntries (n + 1)) :=
  (safe_at? _).bind fun _ => .ite (safe_take.bind fun _ => .pure _)
    ((safe_expect _).bind fun _ => (h.nodeUnless _ _ _).bind fun _ =>
      (h.entryValue _ _).bind fun _ => h.blockEntries.bind fun _ => .pure _)

lemma entryValue_succ (h : SafeAt n) (setting : Setting) (ends : List Token) :
    Safe (Descend.entryValue setting ends (n + 1)) :=
  (safe_at? _).bind fun _ => .ite (safe_take.bind fun _ => h.nodeUnless _ _ _)
    (safe_peek.bind fun _ => .pure _)

lemma flowItems_succ (h : SafeAt n) (first : Bool) : Safe (Descend.flowItems (n + 1) first) := by
  have hitems : Safe (do
      if ← at? [.key] then
        let t ← take
        let key ← Descend.nodeUnless .flow [.value, .flowEntry, .flowSequenceEnd] t.stop n
        let value ← Descend.entryValue .flow [.flowEntry, .flowSequenceEnd] n
        return .mapping .map [(key, value)] t.start :: (← Descend.flowItems n false)
      else if ← at? [.flowSequenceEnd] then
        let _ ← take
        return []
      else
        let item ← Descend.node .flow n
        return item :: (← Descend.flowItems n false)) :=
    (safe_at? _).bind fun _ => .ite
      (safe_take.bind fun _ => (h.nodeUnless _ _ _).bind fun _ => (h.entryValue _ _).bind fun _ =>
        (h.flowItems _).bind fun _ => .pure _)
      ((safe_at? _).bind fun _ => .ite (safe_take.bind fun _ => .pure _)
        ((h.node _).bind fun _ => (h.flowItems _).bind fun _ => .pure _))
  rw [Descend.flowItems]
  refine (safe_at? _).bind fun _ => .ite (safe_take.bind fun _ => .pure _) (.ite ?_ ?_)
  · exact (safe_expect _).bind fun _ => hitems
  · exact hitems

lemma flowEntries_succ (h : SafeAt n) (first : Bool) :
    Safe (Descend.flowEntries (n + 1) first) := by
  have hentries : Safe (do
      if ← at? [.key] then
        let t ← take
        let key ← Descend.nodeUnless .flow [.value, .flowEntry, .flowMappingEnd] t.stop n
        let value ← Descend.entryValue .flow [.flowEntry, .flowMappingEnd] n
        return (key, value) :: (← Descend.flowEntries n false)
      else if ← at? [.flowMappingEnd] then
        let _ ← take
        return []
      else
        let key ← Descend.node .flow n
        let value := Node.empty (← peek).start
        return (key, value) :: (← Descend.flowEntries n false)) :=
    (safe_at? _).bind fun _ => .ite
      (safe_take.bind fun _ => (h.nodeUnless _ _ _).bind fun _ => (h.entryValue _ _).bind fun _ =>
        (h.flowEntries _).bind fun _ => .pure _)
      ((safe_at? _).bind fun _ => .ite (safe_take.bind fun _ => .pure _)
        ((h.node _).bind fun _ => safe_peek.bind fun _ => (h.flowEntries _).bind fun _ => .pure _))
  rw [Descend.flowEntries]
  refine (safe_at? _).bind fun _ => .ite (safe_take.bind fun _ => .pure _) (.ite ?_ ?_)
  · exact (safe_expect _).bind fun _ => hentries
  · exact hentries

end SafeAt

/-- Down to every depth: one step goes down to where the depth is used up. -/
lemma safeAt : ∀ n, SafeAt n
  | 0 => by
    constructor <;> intros <;> exact .invalid
  | n + 1 =>
    have h := safeAt n
    ⟨h.node_succ, h.nodeUnless_succ, h.blockItems_succ, h.flatItems_succ, h.blockEntries_succ,
      h.entryValue_succ, h.flowItems_succ, h.flowEntries_succ⟩

lemma safe_directives (tokens : List PlacedToken) (hasVersion : Bool) :
    Safe (directives tokens hasVersion) := by
  induction tokens generalizing hasVersion with
  | nil => exact .pure ()
  | cons t ts ih =>
    unfold directives
    split
    · next heq =>
      cases heq
      refine safe_take.bind fun _ => ?_
      split
      · exact .ite (Safe.invalid.bind fun _ => ih _) (ih _)
      · refine Safe.get.bind fun _ => .ite (Safe.invalid.bind fun _ => ?_) ?_
        · exact .bind (.modify fun _ => rfl) fun _ => ih _
        · exact .bind (.modify fun _ => rfl) fun _ => ih _
      · exact ih _
    · exact .pure ()

lemma safe_documentEnds (tokens : List PlacedToken) : Safe (documentEnds tokens) := by
  induction tokens with
  | nil => exact .pure ()
  | cons t ts ih =>
    unfold documentEnds
    split
    · next heq =>
      cases heq
      exact safe_take.bind fun _ => ih
    · exact .pure ()

lemma safe_content (tokens : List PlacedToken) : Safe (content tokens) := by
  have hnode : ∀ setting, Safe (node setting (depthBound tokens)) := (safeAt _).node
  unfold content
  refine safe_peek.bind fun _ => .ite ?_ ?_
  · exact .bind (.modify fun _ => rfl) fun _ => hnode _
  · refine (safe_directives _ _).bind fun _ => .bind (.modify fun _ => rfl) fun _ =>
      (safe_expect _).bind fun _ => safe_peek.bind fun _ => ?_
    split
    · exact .pure _
    · exact .pure _
    · exact .pure _
    · exact .pure _
    · exact hnode _

lemma safe_document (tokens : List PlacedToken) : Safe (document tokens) :=
  (safe_at? _).bind fun _ => .ite (.pure _) ((safe_content _).bind fun _ => Safe.get.bind fun _ =>
    (safe_documentEnds _).bind fun _ => (safe_expect _).bind fun _ => .pure _)

end Descend

/-- A text cannot be read in the expected ways only. -/
theorem scanFault_of_root {text : String} {fault : YamlFault} (h : root text = .error fault) :
    ScanFault fault := by
  have hsafe := Descend.safe_document (Lexer.tokensOf text).tokens
    ⟨(Lexer.tokensOf text).tokens, (Lexer.tokensOf text).fault, [], []⟩
    fun _ => Lexer.scanFault_of_tokensOf
  rw [root, Node.ofTokens, StateT.run'_eq] at h
  cases hrun : (Descend.document (Lexer.tokensOf text).tokens).run
      ⟨(Lexer.tokensOf text).tokens, (Lexer.tokensOf text).fault, [], []⟩ with
  | error f =>
    rw [hrun] at h hsafe
    cases h
    exact hsafe
  | ok r =>
    rw [hrun] at h
    cases h

end Yaml

end ApiLint
