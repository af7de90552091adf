import ApiLint.Proofs.Document.Redirecting

/-!
# What a component refers to

A component reaches the components that are referred to in its raw schema, and those that these
reach. If two documents declare the same raw schemas under the names that a component reaches in
one of them, then these schemas correspond: nothing else in the documents has a part in what they
say.
-/

namespace ApiLint

namespace Components

/-- A raw schema refers to a component: itself, or in a schema in line of it. -/
inductive Mentions (cs : Components) (name : String) : Raw → Prop
  | here {raw : Raw} (h : cs.referredName? raw = some name) : Mentions cs name raw
  | inside {es : Entries} {e : Edge × Raw} (hplain : es.field? "$ref" = none)
      (he : e ∈ es.outline.children) (h : Mentions cs name e.2) : Mentions cs name (.dict es)

/-- A component reaches itself, and the components that its raw schema and those of the components
it reaches refer to. -/
inductive Reaches (cs : Components) (name : String) : String → Prop
  | refl : Reaches cs name name
  | step {other next : String} {body : Raw} (h : Reaches cs name other)
      (hbody : Entries.field? cs.entries other = some body) (hnext : cs.Mentions next body) :
      Reaches cs name next

variable {cs cs' : Components} {P : String → Prop} {raw : Raw} {name other : String}

/-! ### References that are within -/

lemma RefersWithin.of_mentions (h : cs.RefersWithin P raw) (hmentions : cs.Mentions name raw) :
    P name := by
  induction hmentions with
  | here hname => exact h.name hname
  | inside hplain he _ ih => exact ih (h.children hplain _ he)

/-- The references of a raw schema are within those to the components that it mentions. -/
lemma RefersWithin.and_mentions (h : cs.RefersWithin P raw) :
    cs.RefersWithin (fun name => P name ∧ cs.Mentions name raw) raw := by
  induction h with
  | other hmapping => exact .other hmapping
  | reference hreferred hname => exact .reference hreferred ⟨hname, .here hreferred⟩
  | inline hplain _ ih =>
    refine .inline hplain fun e he => (ih e he).imp ?_
    exact fun _ hname => ⟨hname.1, .inside hplain he hname.2⟩

/-! ### Chains -/

/-- A component reaches the end of its chain of aliases. -/
lemma Reaches.target {target : String} {shape : Raw} (hreaches : cs.Reaches name other)
    (h : cs.EndsAt other target shape) : cs.Reaches name target := by
  obtain ⟨_, h⟩ := h
  induction h with
  | stop => exact hreaches
  | step hbody hnext _ ih => exact ih (hreaches.step hbody (.here hnext))

/-- In documents of one family the same texts are references to the same names. -/
lemma referenceName?_congr (hfamily : cs'.version.family = cs.version.family) (reference : String) :
    cs'.referenceName? reference = cs.referenceName? reference := by
  simp only [referenceName?, container, Version.schemasPath, hfamily]

lemma referredName?_congr (hfamily : cs'.version.family = cs.version.family) (raw : Raw) :
    cs'.referredName? raw = cs.referredName? raw := by
  rw [referredName?, referredName?]
  split
  · exact referenceName?_congr hfamily _
  · rfl

lemma pointerTo_congr (hfamily : cs'.version.family = cs.version.family) (name : String) :
    cs'.pointerTo name = cs.pointerTo name := by
  simp only [pointerTo, container, Version.schemasPath, hfamily]

/-- Documents of one family that declare the same raw schemas under the names that a component
reaches in one of them. -/
structure AgreeFrom (cs cs' : Components) (name : String) : Prop where
  family : cs'.version.family = cs.version.family
  body : ∀ other, cs.Reaches name other →
    Entries.field? cs'.entries other = Entries.field? cs.entries other

/-- Chains of aliases end at the same components. -/
lemma AgreeFrom.endsAt (hagree : AgreeFrom cs cs' name) {target : String} {shape : Raw}
    (hreaches : cs.Reaches name other) (h : cs.EndsAt other target shape) :
    cs'.EndsAt other target shape := by
  obtain ⟨steps, h⟩ := h
  refine ⟨steps, ?_⟩
  induction h with
  | stop hshape hplain => exact .stop ((hagree.body _ hreaches).trans hshape) hplain
  | step hbody hnext _ ih =>
    exact .step ((hagree.body _ hreaches).trans hbody)
      ((referredName?_congr hagree.family _).trans hnext)
      (ih (hreaches.step hbody (.here hnext)))

end Components

namespace LoadedDocument

variable {document : Raw} {d : LoadedDocument} {cs cs' : Components} {name : String}

/-- What a component of a loaded document reaches are components. -/
lemma mem_names_of_reaches (hdocument : document.isTextKeyed = true)
    (hcs : Components.ofDocument document = .ok cs) (h : ofRaw document = .ok d)
    (hname : name ∈ cs.names) {other : String} (hreaches : cs.Reaches name other) :
    other ∈ cs.names := by
  induction hreaches with
  | refl => exact hname
  | @step other next body _ hbody hnext ih =>
    obtain ⟨target, es, ⟨steps, hends⟩, hwithin⟩ := exists_shape hdocument hcs h ih
    cases hends with
    | stop hshape _ =>
      rw [hbody] at hshape
      cases hshape
      exact hwithin.of_mentions hnext
    | step hbody' hreferred hends =>
      rw [hbody] at hbody'
      cases hbody'
      cases hnext with
      | here hnext =>
        rw [hreferred] at hnext
        cases hnext
        exact Components.EndsAt.mem_names ⟨_, hends⟩
      | inside hplain =>
        rw [Components.referredName?_inline hplain] at hreferred
        cases hreferred

/-- If another document declares the same raw schemas under the names that a component of a loaded
document reaches, then these schemas correspond, each to itself. -/
lemma corresponds_of_agreeFrom (hdocument : document.isTextKeyed = true)
    (hcs : Components.ofDocument document = .ok cs) (h : ofRaw document = .ok d)
    (hname : name ∈ cs.names) (hagree : cs.AgreeFrom cs' name) :
    cs.Corresponds cs' (fun other other' => other = other' ∧ cs.Reaches name other)
      (cs.Redirected (cs.Reaches name) fun _ raw => raw) := by
  apply Components.corresponds_of_redirect
  · intro path text other hother hreaches
    exact ⟨text, other, rfl, (Components.referenceName?_congr hagree.family text).trans hother, rfl,
      hreaches⟩
  · rintro other _ ⟨rfl, hreaches⟩
    have hother := mem_names_of_reaches hdocument hcs h hname hreaches
    obtain ⟨target, es, hends, hwithin⟩ := exists_shape hdocument hcs h hother
    have hsame : Raw.redirectEntries (fun _ raw => raw) [] .schema es = es :=
      Raw.redirectEntries_eq_self es [] (.inr fun _ _ => rfl)
    refine ⟨target, target, es, [], hends, ?_, hwithin.and_mentions.imp ?_⟩
    · rw [hsame]
      exact hagree.endsAt hreaches hends
    · rintro next ⟨_, hnext⟩
      obtain ⟨_, hends⟩ := hends
      exact (hreaches.target ⟨_, hends⟩).step hends.target_found.1 hnext

end LoadedDocument

end ApiLint
