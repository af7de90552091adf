import ApiLint.Proofs.Lint.Renaming
import ApiLint.Proofs.Rule.Selection

/-!
# Aliases that are not walked

A linter does not walk aliases. Nothing is lost by that: an alias stands for the component at the
end of its chain, which is walked under its own name, and the walk of the alias would find the same.
Nor does it matter to which of the two a schema refers.
-/

namespace ApiLint

/-- The mismatches among the findings of a walk. -/
def Walk.Outcome.mismatches (o : Walk.Outcome) : List Finding :=
  o.reported.filter (·.kind == .typeMismatch)

/-- Findings that echo each other below the same pointer have the same mismatches among them. -/
lemma Finding.Echoes.filter_eq {ρ : String → String → Prop} {base : Pointer} {fs fs' : List Finding}
    (h : List.Forall₂ (Finding.Echoes ρ base base) fs fs') :
    fs'.filter (·.kind == .typeMismatch) = fs.filter (·.kind == .typeMismatch) := by
  induction h with
  | nil => rfl
  | cons head _ ih =>
    cases head with
    | mismatch segments => simp [Matching.mismatch, ih]
    | missing => simp [ih]
    | notRequired => simp [ih]

namespace LoadedDocument

variable {document : Raw} {d : LoadedDocument} {cs : Components} {name target : String}

/-- The walk from a component that stops at references, said on the end of its chain of aliases. -/
lemma findings_walk_of_endsAt (hdocument : document.isTextKeyed = true)
    (hcs : Components.ofDocument document = .ok cs) (h : ofRaw document = .ok d)
    (hnames : "" ∉ cs.names) {rules : RuleSet} (hrules : ∀ rule ∈ rules.rules, rule ∈ Rule.builtin)
    {es : Entries} (hends : cs.EndsAt name target (.dict es)) (base : Pointer) :
    ((Walker.mk rules base true).walk d.graph (.node (d.placeOf name))).findings
      = .ok (es.inlineSchemas.flatMap fun s =>
        cs.findingsOf rules s.entries (base.join s.segments)) := by
  have hrendered := renderedBy_graph hdocument hcs h
  obtain ⟨body, lo, hi, hbody, target', shape, node, htarget, hnode, hreference, hrenders⟩ :=
    hrendered.component hends.mem_names
  obtain ⟨-, heq⟩ := hends.unique ((Components.aliasTarget_eq_ok_iff hbody).mp htarget)
  cases heq
  rw [placeOf, names_of_ofRaw hdocument hcs h]
  exact hrendered.findings_walk_eq_findingsOf hnames hrules hends.mem_names hnode hreference
    hrenders base

end LoadedDocument

namespace Components

variable {cs : Components} {name target : String} {g : List String → Raw → Raw}

/-- The names that references to a component have before and after some references to an alias are
put in the place of references to the end of its chain. -/
def Retargeted (cs : Components) (name target member member' : String) : Prop :=
  member ∈ cs.names ∧ (member' = member ∨ member = name ∧ member' = target)

/-- References in some places to a component are replaced by references to another one. -/
def Retargets (cs : Components) (name target : String) (g : List String → Raw → Raw) : Prop :=
  ∀ path raw, g path raw = raw ∨ ∃ text text', raw = .str text ∧ cs.referenceName? text = some name
    ∧ g path raw = .str text' ∧ cs.referenceName? text' = some target

lemma renames_of_retargets {shape : Raw} (hends : cs.EndsAt name target shape)
    (hg : cs.Retargets name target g) :
    cs.Renames (cs.redirect g) id (cs.Retargeted name target) g where
  entries := (Raw.forall₂_redirectEntries cs.entries _).imp
    fun _ _ he => ⟨congrArg Raw.text he.1.symm, he.2⟩
  injective _ _ _ _ heq := heq
  reference := by
    intro path text member hmember hmem
    rcases hg path (.str text) with hsame | ⟨_, text', heq, hname, hto, htarget⟩
    · exact ⟨text, member, hsame, hmember, hmem, .inl rfl⟩
    · cases heq
      rw [hmember] at hname
      cases hname
      exact ⟨text', target, hto, htarget, hmem, .inr ⟨rfl, rfl⟩⟩
  self _ hmember := ⟨hmember, .inl rfl⟩
  related := by
    rintro member member' ⟨hmember, rfl | ⟨rfl, rfl⟩⟩
    · exact ⟨hmember, .inl rfl⟩
    · exact ⟨hmember, .inr ⟨_, shape, hends, rfl⟩⟩

lemma isTextKeyed_of_retargets (hg : cs.Retargets name target g) {document : Raw}
    (hdocument : document.isTextKeyed = true) :
    (document.redirect g [] .document).isTextKeyed = true := by
  apply Raw.isTextKeyed_redirect _ document _ _ hdocument
  intro path raw hraw
  rcases hg path raw with hsame | ⟨_, text', _, _, hto, _⟩
  · rwa [hsame]
  · rw [hto]
    rfl

end Components

namespace Lint

/-- An alias stands for a component that is none. From either, walks that stop at references find
the same, with any of the rules of the library and below any pointer. If references to the alias are
replaced by references to that component, the document loads with the same aliases, and a linter
finds the same in it, up to the names of members in messages about discriminators. -/
theorem aliases_lose_nothing {document : Raw} {cs : Components} {d : LoadedDocument}
    {name target : String} (hdocument : document.isTextKeyed = true)
    (hcs : Components.ofDocument document = .ok cs) (h : LoadedDocument.ofRaw document = .ok d)
    (hnames : "" ∉ cs.names) (hdeclared : Fields.find? d.aliases name = some target) :
    target ∈ d.names ∧ Fields.find? d.aliases target = none
    ∧ (∀ rules : RuleSet, (∀ rule ∈ rules.rules, rule ∈ Rule.builtin) → ∀ base : Pointer,
      ∃ fs, ((Walker.mk rules base true).walk d.graph (.node (d.placeOf name))).findings = .ok fs
        ∧ ((Walker.mk rules base true).walk d.graph (.node (d.placeOf target))).findings = .ok fs)
    ∧ ∀ g, cs.Retargets name target g →
      ∃ d', LoadedDocument.ofRaw (document.redirect g [] .document) = .ok d'
        ∧ d'.names = d.names ∧ d'.aliases = d.aliases
        ∧ List.Forall₂ (fun w w' => w'.mismatches = w.mismatches ∧ ∃ component ∈ d.names,
            LoadedDocument.EchoingWalks (cs.Retargeted name target) cs cs d d' component component
              w w')
          (d.walks RuleSet.builtin) (d'.walks RuleSet.builtin) := by
  obtain ⟨-, shape, hends⟩ :=
    (LoadedDocument.find?_aliases_eq_some_iff hdocument hcs h).mp hdeclared
  obtain ⟨_, es, hends', -⟩ := LoadedDocument.exists_shape hdocument hcs h hends.mem_names
  obtain ⟨rfl, rfl⟩ := hends.unique hends'
  have htarget : cs.EndsAt target target (.dict es) := by
    obtain ⟨_, hends⟩ := hends
    exact ⟨0, .stop hends.target_found.1 hends.target_found.2⟩
  rw [LoadedDocument.names_of_ofRaw hdocument hcs h]
  refine ⟨htarget.mem_names, ?_, ?_, ?_⟩
  · rw [LoadedDocument.find?_aliases_of_endsAt hdocument hcs h htarget, if_pos rfl]
  · intro rules hrules base
    exact ⟨_, LoadedDocument.findings_walk_of_endsAt hdocument hcs h hnames hrules hends base,
      LoadedDocument.findings_walk_of_endsAt hdocument hcs h hnames hrules htarget base⟩
  · intro g hg
    have hrenames := Components.renames_of_retargets hends hg
    have hkeyed := Components.isTextKeyed_of_retargets hg hdocument
    have hcs' : Components.ofDocument (document.redirect g [] .document) = .ok (cs.redirect g) := by
      rw [Components.ofDocument_redirect, hcs]
      rfl
    have hsame : (cs.redirect g).names = cs.names := by rw [hrenames.names_eq, List.map_id]
    obtain ⟨d', h'⟩ := LoadedDocument.exists_of_renames hdocument hkeyed hcs hcs' h hrenames
    refine ⟨d', h', ?_, ?_, ?_⟩
    · rw [LoadedDocument.names_of_ofRaw hkeyed hcs' h', hsame]
    · rw [LoadedDocument.aliases_of_renames hdocument hkeyed hcs hcs' h h' hrenames]
      exact List.map_id' _
    · have hwalks := LoadedDocument.forall₂_walks_of_renames hdocument hkeyed hcs hcs' h h' hnames
        (hsame ▸ hnames) hrenames
      refine hwalks.imp ?_
      rintro w w' ⟨component, hcomponent, hwalks⟩
      refine ⟨?_, component, hcomponent, hwalks⟩
      obtain ⟨-, -, fs, fs', hfindings, hfindings', hechoes⟩ := hwalks
      simp only [Walk.Outcome.mismatches, Walk.Outcome.reported, hfindings, hfindings']
      exact Finding.Echoes.filter_eq hechoes

/-- References to the alias of the sample document are replaced wherever they are. -/
def retargetLabels (_ : List String) (raw : Raw) : Raw :=
  if raw.isText "#/components/schemas/Label" then .str "#/components/schemas/Tag" else raw

lemma retargets_sample : sampleComponents.Retargets "Label" "Tag" retargetLabels := by
  intro path raw
  rw [retargetLabels]
  split
  · next htext =>
    refine .inr ⟨_, _, Raw.isText_iff.mp htext, ?_, rfl, ?_⟩
    · decide +kernel
    · decide +kernel
  · exact .inl rfl

theorem aliases_lose_nothing_sample :
    ∃ d, LoadedDocument.ofRaw sampleDocument = .ok d
      ∧ Fields.find? d.aliases "Label" = some "Tag"
      ∧ "Tag" ∈ d.names ∧ Fields.find? d.aliases "Tag" = none
      ∧ (∃ fs, ((Walker.mk ⟨[.typeMismatch]⟩ "" true).walk d.graph
            (.node (d.placeOf "Label"))).findings = .ok fs
          ∧ ((Walker.mk ⟨[.typeMismatch]⟩ "" true).walk d.graph
            (.node (d.placeOf "Tag"))).findings = .ok fs)
      ∧ ∃ d', LoadedDocument.ofRaw (sampleDocument.redirect retargetLabels [] .document) = .ok d'
        ∧ d'.aliases = d.aliases := by
  obtain ⟨d, h⟩ := ofRaw_sample
  have hkeyed : sampleDocument.isTextKeyed = true := by decide
  have hdeclared : Fields.find? d.aliases "Label" = some "Tag" := by
    rw [LoadedDocument.aliases_eq hkeyed ofDocument_sample h]
    decide +kernel
  obtain ⟨hmem, hnone, hwalks, hretarget⟩ :=
    aliases_lose_nothing hkeyed ofDocument_sample h (by decide) hdeclared
  obtain ⟨d', h', -, haliases, -⟩ := hretarget retargetLabels retargets_sample
  refine ⟨d, h, hdeclared, hmem, hnone, hwalks ⟨[.typeMismatch]⟩ ?_ "", d', h', haliases⟩
  simp [Rule.builtin]

end Lint

end ApiLint
