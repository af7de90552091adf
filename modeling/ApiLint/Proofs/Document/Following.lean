import Mathlib.Data.List.Chain
import ApiLint.Proofs.Document.Chains

/-!
# Following references

Two searches follow the references from component to component. One follows the aliases of a
component by their names and fails on a name that comes back; the other one follows the references
of a schema by their texts and gives up on a text that comes back. Neither runs out of steps before
it is done: what was followed before stands once in a list that is no longer than the components.
Where every alias resolves, the first one fails on those components from which it comes to no end,
with the circle that it ran into. In a document that loads, both end at the same raw schema.
-/

namespace ApiLint

/-- Where keys are texts, each standing once, an entry is found by the text of its key. -/
lemma Entries.field?_text_of_distinct {es : Entries} (hkeys : ∀ e ∈ es, ∃ name, e.1 = .str name)
    (hnames : (es.map fun e => e.1.text).Nodup) {e : Raw × Raw} (he : e ∈ es) :
    es.field? e.1.text = some e.2 := by
  induction es with
  | nil => cases he
  | cons first es ih =>
    obtain ⟨key, value⟩ := first
    obtain ⟨⟨name, hname⟩, hrest⟩ := List.forall_mem_cons.mp hkeys
    rw [List.map_cons, List.nodup_cons] at hnames
    obtain rfl : key = .str name := hname
    rcases List.mem_cons.mp he with rfl | he
    · exact Entries.field?_cons_self ..
    · have hne : Raw.str name ≠ .str e.1.text := by
        intro heq
        refine hnames.1 (List.mem_map.mpr ⟨e, he, ?_⟩)
        rw [Raw.str.inj heq, Raw.text_str]
      rw [Entries.field?_cons_of_ne hne, ih hrest hnames.2 he]

namespace Components

/-- The keys of the components are texts, each standing once. -/
def HasTextKeys (cs : Components) : Prop :=
  (∀ e ∈ cs.entries, ∃ name, e.1 = .str name) ∧ cs.names.Nodup

/-- Every component that is a reference resolves. -/
def ResolvesAliases (cs : Components) : Prop :=
  ∀ e ∈ cs.entries, ∀ reference, reference? e.2 = some reference →
    ∀ pointer, ∃ name, cs.resolve pointer reference = .ok name

/-- A component is an alias of another one. -/
def IsAliasOf (cs : Components) (name next : String) : Prop :=
  ∃ body, Entries.field? cs.entries name = some body ∧ cs.referredName? body = some next

/-- A chain of aliases that comes back to a name on it. -/
structure IsCircle (cs : Components) (names : List String) : Prop where
  aliases : names.IsChain cs.IsAliasOf
  comesBack : ∃ front last, names = front ++ [last] ∧ front.Nodup ∧ last ∈ front

/-- The names on a chain of aliases that has not come back, the last one in front. -/
structure IsTrail (cs : Components) (chain : List String) : Prop where
  nodup : chain.Nodup
  subset : chain ⊆ cs.names
  aliases : chain.IsChain fun next name => cs.IsAliasOf name next

variable {cs : Components} {pointer : Pointer} {steps more : Nat} {name next : String}
  {body raw : Raw} {chain : List String}

lemma HasTextKeys.exists_body (h : cs.HasTextKeys) (hname : name ∈ cs.names) :
    ∃ body, Entries.field? cs.entries name = some body := by
  obtain ⟨e, he, rfl⟩ := List.mem_map.mp hname
  exact ⟨e.2, Entries.field?_text_of_distinct h.1 h.2 he⟩

lemma hasTextKeys_of_isTextKeyed {document : Raw} (hdocument : document.isTextKeyed = true)
    (hcs : ofDocument document = .ok cs) : cs.HasTextKeys :=
  have hkeyed := isTextKeyed_of_ofDocument hdocument hcs
  ⟨fun _ he => (Raw.isTextKeyed_of_mem_dict hkeyed he).1, nodup_names hkeyed⟩

/-! ### Aliases by their names -/

lemma isTrail_singleton (hname : name ∈ cs.names) : cs.IsTrail [name] where
  nodup := List.nodup_singleton name
  subset := List.cons_subset.mpr ⟨hname, List.nil_subset _⟩
  aliases := .singleton name

namespace IsTrail

/-- A trail is no longer than there are components. -/
lemma length_le (h : cs.IsTrail chain) : chain.length ≤ cs.entries.length := by
  have hle := (List.subperm_of_subset h.nodup h.subset).length_le
  simpa [names] using hle

lemma cons (h : cs.IsTrail (name :: chain)) (halias : cs.IsAliasOf name next)
    (hnext : next ∈ cs.names) (hnew : next ∉ name :: chain) :
    cs.IsTrail (next :: name :: chain) where
  nodup := List.nodup_cons.mpr ⟨hnew, h.nodup⟩
  subset := List.cons_subset.mpr ⟨hnext, h.subset⟩
  aliases := .cons_cons halias h.aliases

/-- A trail that comes back closes a circle. -/
lemma isCircle (h : cs.IsTrail (name :: chain)) (halias : cs.IsAliasOf name next)
    (hmem : next ∈ name :: chain) : cs.IsCircle (next :: name :: chain).reverse where
  aliases := List.isChain_reverse.mpr (.cons_cons halias h.aliases)
  comesBack := ⟨(name :: chain).reverse, next, List.reverse_cons, List.nodup_reverse.mpr h.nodup,
    List.mem_reverse.mpr hmem⟩

end IsTrail

/-- With steps for all components that are not on the trail, further steps change nothing. -/
lemma follow_eq_of_le (h : cs.IsTrail (name :: chain))
    (hbody : Entries.field? cs.entries name = some body)
    (hsteps : cs.entries.length ≤ steps + chain.length) (hmore : steps ≤ more) :
    cs.follow pointer more (name :: chain) body = cs.follow pointer steps (name :: chain) body := by
  -- The names on the trail are distinct components, so steps for all others never run out.
  induction steps generalizing more name chain body with
  | zero =>
    have := h.length_le
    rw [List.length_cons] at this
    omega
  | succ steps ih =>
    obtain ⟨more, rfl⟩ := Nat.exists_eq_add_one_of_ne_zero (by omega : more ≠ 0)
    rw [follow, follow]
    cases hreference : reference? body with
    | none => rfl
    | some reference =>
      dsimp only
      apply bind_congr_except
      intro next hresolve
      obtain ⟨text, rfl, htext, hmem⟩ := resolve_eq_ok hresolve
      by_cases hnew : next ∈ name :: chain
      · simp only [hnew, if_true]
        rfl
      · simp only [hnew, if_false]
        have halias : cs.IsAliasOf name next :=
          ⟨body, hbody, (referredName?_of_reference? hreference).trans htext⟩
        cases hnext : Entries.field? cs.entries next with
        | none => rfl
        | some nextBody =>
          refine ih (h.cons halias hmem hnew) hnext ?_ (by omega)
          rw [List.length_cons]
          omega

/-- Where every alias resolves, following a trail comes to an end or closes a circle. -/
lemma follow_ok_or_circle (hkeys : cs.HasTextKeys) (hresolves : cs.ResolvesAliases)
    (pointer : Pointer) (h : cs.IsTrail (name :: chain))
    (hbody : Entries.field? cs.entries name = some body)
    (hsteps : cs.entries.length ≤ steps + chain.length) :
    (∃ result, cs.follow pointer steps (name :: chain) body = .ok result)
      ∨ ∃ circle, cs.follow pointer steps (name :: chain) body = .error (.aliasCycle pointer circle)
        ∧ cs.IsCircle circle ∧ (name :: chain).reverse <+: circle := by
  induction steps generalizing name chain body with
  | zero =>
    have := h.length_le
    rw [List.length_cons] at this
    omega
  | succ steps ih =>
    rw [follow]
    cases hreference : reference? body with
    | none => exact .inl ⟨_, rfl⟩
    | some reference =>
      obtain ⟨next, hresolve⟩ :=
        hresolves _ (Entries.mem_of_field? hbody) reference hreference pointer
      obtain ⟨text, rfl, htext, hmem⟩ := resolve_eq_ok hresolve
      have halias : cs.IsAliasOf name next :=
        ⟨body, hbody, (referredName?_of_reference? hreference).trans htext⟩
      simp only [hresolve, bind, Except.bind]
      -- The next component closes a circle with the trail, or it makes the trail longer.
      by_cases hnew : next ∈ name :: chain
      · simp only [hnew, if_true]
        exact .inr ⟨_, rfl, h.isCircle halias hnew, [next], List.reverse_cons.symm⟩
      · obtain ⟨nextBody, hnext⟩ := hkeys.exists_body hmem
        simp only [hnew, if_false, hnext]
        refine (ih (h.cons halias hmem hnew) hnext ?_).imp_right ?_
        · rw [List.length_cons]
          omega
        · rintro ⟨circle, hcircle, hcloses, hbegins⟩
          refine ⟨circle, hcircle, hcloses, List.IsPrefix.trans ?_ hbegins⟩
          exact ⟨[next], List.reverse_cons.symm⟩

/-- Where every alias resolves, a component has no shape exactly if its aliases come to no end. -/
lemma aliasTarget_circle_iff (hkeys : cs.HasTextKeys) (hresolves : cs.ResolvesAliases)
    (hbody : Entries.field? cs.entries name = some body) :
    (∃ circle, cs.aliasTarget name body = .error (.aliasCycle (cs.pointerTo name) circle))
      ↔ ¬ ∃ target shape, cs.EndsAt name target shape := by
  constructor
  · rintro ⟨circle, hcircle⟩ ⟨target, shape, hends⟩
    rw [(aliasTarget_eq_ok_iff hbody).mpr hends] at hcircle
    cases hcircle
  · intro hnot
    obtain ⟨⟨target, shape⟩, hok⟩ | ⟨circle, hcircle, -⟩ :=
      follow_ok_or_circle hkeys hresolves (cs.pointerTo name)
        (isTrail_singleton (mem_names_of_field? hbody)) hbody (Nat.le_succ _)
    · exact absurd ⟨target, shape, (aliasTarget_eq_ok_iff hbody).mp hok⟩ hnot
    · exact ⟨circle, hcircle⟩

/-- The circle in the error begins at the component that was asked for. -/
lemma isCircle_of_aliasTarget (hkeys : cs.HasTextKeys) (hresolves : cs.ResolvesAliases)
    (hbody : Entries.field? cs.entries name = some body) {circle : List String}
    (h : cs.aliasTarget name body = .error (.aliasCycle (cs.pointerTo name) circle)) :
    cs.IsCircle circle ∧ circle.head? = some name := by
  obtain ⟨_, hok⟩ | ⟨circle', hcircle, hcloses, hbegins⟩ :=
    follow_ok_or_circle hkeys hresolves (cs.pointerTo name)
      (isTrail_singleton (mem_names_of_field? hbody)) hbody (Nat.le_succ _)
  · rw [aliasTarget, hok] at h
    cases h
  · rw [aliasTarget, hcircle] at h
    cases h
    obtain ⟨rest, rfl⟩ := hbegins
    exact ⟨hcloses, rfl⟩

/-! ### References by their texts -/

/-- The text of the reference that a raw schema consists of. -/
def referenceText? (raw : Raw) : Option String :=
  match reference? raw with
  | some (.str text) => some text
  | _ => none

/-- The texts of the references in the place of a schema and of the components. -/
def referenceTexts (cs : Components) (raw : Raw) : List String :=
  (raw :: cs.entries.map fun e => e.2).filterMap referenceText?

lemma length_referenceTexts_le (raw : Raw) :
    (cs.referenceTexts raw).length ≤ cs.entries.length + 1 := by
  refine (List.length_filterMap_le ..).trans ?_
  simp

/-- One step of the search: either it is done, or it goes on behind a reference that was not
followed. -/
lemma governingFrom_succ_cases (cs : Components) (seen : List String) (raw : Raw) :
    (∃ found, ∀ steps, cs.governingFrom (steps + 1) seen raw = found)
      ∨ ∃ text name, referenceText? raw = some text ∧ text ∉ seen
        ∧ ∀ steps, cs.governingFrom (steps + 1) seen raw
          = cs.governingFrom steps (text :: seen) (Entries.field cs.entries name) := by
  cases raw with
  | dict es =>
    simp only [governingFrom, referenceText?, reference?]
    cases Entries.field? es "$ref" with
    | none => exact .inl ⟨_, fun _ => rfl⟩
    | some reference =>
      cases reference with
      | str text =>
        by_cases hmem : text ∈ seen
        · exact .inl ⟨none, fun _ => if_pos hmem⟩
        · simp only [hmem, if_false]
          cases cs.referenceName? text with
          | none => exact .inl ⟨none, fun _ => rfl⟩
          | some name => exact .inr ⟨text, name, rfl, hmem, fun _ => rfl⟩
      | _ => exact .inl ⟨none, fun _ => rfl⟩
  | _ => exact .inl ⟨none, fun _ => rfl⟩

/-- With steps for all texts that were not followed, further steps change nothing. -/
lemma governingFrom_eq_of_le (texts : List String) {seen : List String} (hnodup : seen.Nodup)
    (hsub : seen ⊆ texts)
    (hbodies : ∀ e ∈ cs.entries, ∀ text, referenceText? e.2 = some text → text ∈ texts)
    (hraw : ∀ text, referenceText? raw = some text → text ∈ texts)
    (hsteps : texts.length < steps + seen.length) (hmore : steps ≤ more) :
    cs.governingFrom more seen raw = cs.governingFrom steps seen raw := by
  induction steps generalizing more seen raw with
  | zero =>
    have := (List.subperm_of_subset hnodup hsub).length_le
    omega
  | succ steps ih =>
    obtain ⟨more, rfl⟩ := Nat.exists_eq_add_one_of_ne_zero (by omega : more ≠ 0)
    rcases cs.governingFrom_succ_cases seen raw with
      ⟨found, hfound⟩ | ⟨text, name, htext, hnew, hgo⟩
    · rw [hfound, hfound]
    · rw [hgo, hgo]
      refine ih (List.nodup_cons.mpr ⟨hnew, hnodup⟩) (List.cons_subset.mpr ⟨hraw text htext, hsub⟩)
        ?_ ?_ (by omega)
      · cases hbody : Entries.field? cs.entries name with
        | none => simp [Entries.field, hbody, referenceText?, reference?]
        | some body =>
          rw [Entries.field_of_field? hbody]
          exact hbodies _ (Entries.mem_of_field? hbody)
      · rw [List.length_cons]
        omega

lemma governingFrom_eq_governing? (raw : Raw) (hsteps : cs.entries.length + 2 ≤ steps) :
    cs.governingFrom steps [] raw = cs.governing? raw := by
  have hle := cs.length_referenceTexts_le raw
  refine governingFrom_eq_of_le (cs.referenceTexts raw) List.nodup_nil (List.nil_subset _)
    ?_ ?_ ?_ hsteps
  · intro e he text htext
    exact List.mem_filterMap.mpr ⟨e.2, List.mem_cons_of_mem _ (List.mem_map_of_mem he), htext⟩
  · intro text htext
    exact List.mem_filterMap.mpr ⟨raw, List.mem_cons_self .., htext⟩
  · rw [List.length_nil]
    omega

/-- The hints under which the literals of a raw schema are converted: the type and the format that
govern them, and the mapping that does. -/
def literalHints (cs : Components) (schema : Raw) : Raw × Raw × Option Entries :=
  let hint (name : String) : Raw := ((cs.governing? schema).map fun es => es.field name).getD .null
  (hint "type", hint "format", cs.governing? schema)

/-! ### Loading -/

/-- The component of a name with the raw schema that its node was filled from, which stands at the
end of the aliases of the name. -/
structure FilledFrom (cs : Components) (name target : String) (shape : Entries)
    (component : Component) : Prop where
  endsAt : cs.EndsAt name target (.dict shape)
  pointer : component.pointer = cs.pointerTo name
  content : cs.fill component.pointer { SchemaNode.blank with reference := some name } shape
    (cs.partsAt component.pointer shape) = .ok component.node

variable {loaded d : LoadedDocument}

lemma exists_filledFrom_of_addComponent {e : Raw × Raw} {next : LoadedDocument}
    (hbody : Entries.field? cs.entries e.1.text = some e.2)
    (hnew : Fields.find? loaded.components e.1.text = none)
    (h : cs.addComponent loaded e.1 e.2 = .ok next) :
    ∃ target shape component, cs.FilledFrom e.1.text target shape component
      ∧ next.components = Fields.insert loaded.components e.1.text component := by
  obtain ⟨target, es, node, htarget, hnode, rfl⟩ := addComponent_eq_ok_iff.mp h
  rw [nodeBefore, hnew] at hnode
  exact ⟨target, es, ⟨cs.pointerTo e.1.text, node⟩,
    ⟨(aliasTarget_eq_ok_iff hbody).mp htarget, rfl, hnode⟩, rfl⟩

/-- Of entries with distinct names, each is loaded once, and what was loaded before stays. -/
lemma exists_filledFrom_of_load {es : Entries}
    (hbody : ∀ e ∈ es, Entries.field? cs.entries e.1.text = some e.2)
    (hnames : (es.map fun e => e.1.text).Nodup)
    (hnew : ∀ e ∈ es, Fields.find? loaded.components e.1.text = none)
    (h : cs.load es loaded = .ok d) :
    (∀ name ∉ es.map (fun e => e.1.text),
      Fields.find? d.components name = Fields.find? loaded.components name)
    ∧ ∀ e ∈ es, ∃ target shape component, Fields.find? d.components e.1.text = some component
      ∧ cs.FilledFrom e.1.text target shape component := by
  induction es generalizing loaded with
  | nil =>
    cases h
    exact ⟨fun _ _ => rfl, by simp⟩
  | cons e es ih =>
    obtain ⟨next, hnext, hrest⟩ := load_cons_eq_ok h
    rw [List.map_cons, List.nodup_cons] at hnames
    obtain ⟨hbodyHere, hbody⟩ := List.forall_mem_cons.mp hbody
    obtain ⟨hnewHere, hnew⟩ := List.forall_mem_cons.mp hnew
    obtain ⟨target, shape, component, hfilled, hcomponents⟩ :=
      exists_filledFrom_of_addComponent hbodyHere hnewHere hnext
    -- A component of the same name would be filled a second time, from what is there.
    have hnewRest : ∀ f ∈ es, Fields.find? next.components f.1.text = none := by
      intro f hf
      have hne : e.1.text ≠ f.1.text := fun heq =>
        hnames.1 (List.mem_map.mpr ⟨f, hf, heq.symm⟩)
      rw [hcomponents, Fields.find?_insert, if_neg hne]
      exact hnew f hf
    obtain ⟨hkept, hloaded⟩ := ih hbody hnames.2 hnewRest hrest
    refine ⟨fun name hname => ?_, List.forall_mem_cons.mpr ⟨?_, hloaded⟩⟩
    · rw [List.map_cons, List.mem_cons, not_or] at hname
      rw [hkept name hname.2, hcomponents, Fields.find?_insert, if_neg (Ne.symm hname.1)]
    · refine ⟨target, shape, component, ?_, hfilled⟩
      rw [hkept _ hnames.1, hcomponents, Fields.find?_insert, if_pos rfl]

lemma exists_filledFrom_of_ofRaw {document : Raw} (hcs : ofDocument document = .ok cs)
    (hkeys : cs.HasTextKeys) (h : LoadedDocument.ofRaw document = .ok d) (hname : name ∈ cs.names) :
    ∃ target shape component, Fields.find? d.components name = some component
      ∧ cs.FilledFrom name target shape component := by
  obtain ⟨_, hcs', -, hload⟩ := LoadedDocument.ofRaw_eq_ok_iff.mp h
  rw [hcs] at hcs'
  cases hcs'
  obtain ⟨e, he, rfl⟩ := List.mem_map.mp hname
  exact (exists_filledFrom_of_load (fun _ => Entries.field?_text_of_distinct hkeys.1 hkeys.2)
    hkeys.2 (fun _ _ => rfl) hload).2 e he

/-- Aliases are followed to their end. Where every alias of a document resolves, a component fails
with a circle exactly if the references from it come to no end, wherever the circle begins; and it
has the name and the raw schema at their end otherwise. In a document that loads, the literals of a
reference are converted under the raw schema that the component of the reference was filled from,
whatever the reference escapes. Both searches end: further steps change nothing. -/
theorem references_are_followed {document : Raw} (hcs : ofDocument document = .ok cs)
    (hkeys : cs.HasTextKeys) :
    (cs.ResolvesAliases → ∀ name body, (.str name, body) ∈ cs.entries →
      (∀ steps > cs.entries.length,
        cs.follow (cs.pointerTo name) steps [name] body = cs.aliasTarget name body)
      ∧ ((∃ circle, cs.aliasTarget name body = .error (.aliasCycle (cs.pointerTo name) circle))
        ↔ ¬ ∃ target shape, cs.EndsAt name target shape)
      ∧ (∀ circle, cs.aliasTarget name body = .error (.aliasCycle (cs.pointerTo name) circle) →
        cs.IsCircle circle ∧ circle.head? = some name)
      ∧ ∀ target shape, cs.EndsAt name target shape →
        cs.aliasTarget name body = .ok (target, shape)
        ∧ ∀ target' shape', cs.EndsAt name target' shape' → target' = target ∧ shape' = shape)
    ∧ ∀ d, LoadedDocument.ofRaw document = .ok d → ∀ (es : Entries) reference,
      es.field? "$ref" = some reference → ∀ place name, cs.resolve place reference = .ok name →
        (∀ steps > cs.entries.length + 1,
          cs.governingFrom steps [] (.dict es) = cs.governing? (.dict es))
        ∧ ∃ target shape component, Fields.find? d.components name = some component
          ∧ cs.FilledFrom name target shape component
          ∧ cs.literalHints (.dict es)
            = (shape.field "type", shape.field "format", some shape) := by
  refine ⟨fun hresolves name body he => ?_, fun d hd es reference hreference place name hname => ?_⟩
  · have hbody : Entries.field? cs.entries name = some body :=
      Entries.field?_text_of_distinct hkeys.1 hkeys.2 he
    refine ⟨fun steps hsteps => ?_, aliasTarget_circle_iff hkeys hresolves hbody,
      fun circle => isCircle_of_aliasTarget hkeys hresolves hbody, fun target shape hends =>
        ⟨(aliasTarget_eq_ok_iff hbody).mpr hends, fun target' shape' hends' => hends'.unique hends⟩⟩
    have htrail := isTrail_singleton (mem_names_of_field? hbody)
    exact follow_eq_of_le htrail hbody (Nat.le_succ _) hsteps
  · obtain ⟨text, rfl, htext, hmem⟩ := resolve_eq_ok hname
    obtain ⟨target, shape, component, hfind, hfilled⟩ :=
      exists_filledFrom_of_ofRaw hcs hkeys hd hmem
    have hreferred : cs.referredName? (.dict es) = some name := by
      rw [referredName?, reference?, hreference]
      exact htext
    refine ⟨fun steps => governingFrom_eq_governing? _, target, shape, component, hfind, hfilled,
      ?_⟩
    rw [literalHints, governing?_of_endsAt hreferred hfilled.endsAt]
    rfl

/-- A mapping that is a reference. -/
def referenceTo (written : String) : Raw :=
  .ofFields [("$ref", .str ("#/components/schemas/" ++ written))]

/-- A document whose components have the schemas. -/
def documentWith (schemas : Entries) : Raw :=
  .ofFields [("openapi", .str "3.0.0"), ("components", .ofFields [("schemas", .dict schemas)])]

/-- An alias that leads into a circle without being on it. -/
def ringed : Components :=
  ⟨⟨.openapi, 3, 0, 0⟩, [(.str "Tail", referenceTo "Ring"), (.str "Ring", referenceTo "Back"),
    (.str "Back", referenceTo "Ring")]⟩

/-- The fields of a schema of integers of 64 bits. -/
def longFields : Entries := [(.str "type", .str "integer"), (.str "format", .str "int64")]

/-- An alias of an alias. -/
def chained : Components :=
  ⟨⟨.openapi, 3, 0, 0⟩, [(.str "Top", referenceTo "Middle"), (.str "Middle", referenceTo "a~1b"),
    (.str "a/b", .dict longFields)]⟩

theorem references_are_followed_ringed :
    ringed.HasTextKeys ∧ ringed.ResolvesAliases
    ∧ (¬ ∃ target shape, ringed.EndsAt "Tail" target shape)
    ∧ chained.HasTextKeys ∧ (∃ d, LoadedDocument.ofRaw (documentWith chained.entries) = .ok d)
    ∧ ∀ written ∈ ["Top", "Middle", "a~1b", "a/b"],
      chained.literalHints (referenceTo written)
        = (.str "integer", .str "int64", some longFields) := by
  have hofRinged : ofDocument (documentWith ringed.entries) = .ok ringed := rfl
  have hofChained : ofDocument (documentWith chained.entries) = .ok chained := rfl
  have hringed : ringed.HasTextKeys := hasTextKeys_of_isTextKeyed (by decide) hofRinged
  have hchained : chained.HasTextKeys := hasTextKeys_of_isTextKeyed (by decide) hofChained
  have hresolves : ringed.ResolvesAliases := by
    intro e he reference hreference pointer
    simp only [ringed, List.mem_cons, List.not_mem_nil, or_false] at he
    rcases he with rfl | rfl | rfl
    all_goals cases hreference
    · exact ⟨"Ring", rfl⟩
    · exact ⟨"Back", rfl⟩
    · exact ⟨"Ring", rfl⟩
  obtain ⟨hfollow, -⟩ := references_are_followed hofRinged hringed
  obtain ⟨-, hcircle, -⟩ := hfollow hresolves "Tail" (referenceTo "Ring") (List.mem_cons_self ..)
  obtain ⟨-, hload⟩ := references_are_followed hofChained hchained
  obtain ⟨d, hd⟩ : ∃ d, LoadedDocument.ofRaw (documentWith chained.entries) = .ok d :=
    exists_ok_of_isSome (by decide +kernel)
  refine ⟨hringed, hresolves, hcircle.mp ⟨["Tail", "Ring", "Back", "Ring"], rfl⟩, hchained, ⟨d, hd⟩,
    fun written hwritten => ?_⟩
  have hhints : ∀ name, chained.resolve "" (.str ("#/components/schemas/" ++ written)) = .ok name →
      chained.EndsAt name "a/b" (.dict longFields) →
      chained.literalHints (referenceTo written)
        = (.str "integer", .str "int64", some longFields) := by
    intro name hname hends
    have hreference : Entries.field?
        [(.str "$ref", .str ("#/components/schemas/" ++ written))] "$ref"
          = some (.str ("#/components/schemas/" ++ written)) := Entries.field?_cons_self ..
    obtain ⟨-, target, shape, component, -, hfilled, hhints⟩ :=
      hload d hd _ _ hreference "" name hname
    obtain ⟨-, hshape⟩ := hfilled.endsAt.unique hends
    cases hshape
    exact hhints
  have hplain : chained.EndsAt "a/b" "a/b" (.dict longFields) := ⟨0, .stop rfl rfl⟩
  have hmiddle : chained.EndsAt "Middle" "a/b" (.dict longFields) :=
    ⟨1, .step rfl rfl (.stop rfl rfl)⟩
  have htop : chained.EndsAt "Top" "a/b" (.dict longFields) :=
    ⟨2, .step rfl rfl (.step rfl rfl (.stop rfl rfl))⟩
  simp only [List.mem_cons, List.not_mem_nil, or_false] at hwritten
  rcases hwritten with rfl | rfl | rfl | rfl
  · exact hhints "Top" rfl htop
  · exact hhints "Middle" rfl hmiddle
  · exact hhints "a/b" rfl hplain
  · exact hhints "a/b" rfl hplain

end Components

end ApiLint
