import ApiLint.Proofs.Document.Chains
import ApiLint.Proofs.Document.Envelope
import ApiLint.Proofs.Rule.Builtin

/-!
# Discriminators as a document writes them

What there is to report about a discriminated composition, said on nothing but the raw schemas: the
name that the discriminator gives, the members as they are listed, and for each member the raw
schema at the end of its whole chain of references. In a document whose envelope has no issues, this
is what is found about the composition.
-/

namespace ApiLint

/-- Whether a finding is about a discriminated composition. -/
def Finding.isDiscrimination (f : Finding) : Bool :=
  f.kind == .discriminatorPropertyMissing || f.kind == .discriminatorNotRequired

/-- The composition whose rule reported a finding, if the finding is about it. -/
def Finding.isAbout (kind : CompositionKind) (f : Finding) : Bool :=
  some f.rule == Discrimination.ruleName? kind

namespace Entries

/-- The property that a discriminator names: it is the name itself, or a mapping with the name. -/
def discriminatorName? (es : Entries) : Option String :=
  match es.field "discriminator" with
  | .str property => some property
  | .dict parts =>
    match Entries.field? parts "propertyName" with
    | some (.str property) => some property
    | _ => none
  | _ => none

/-- Whether a raw schema declares a property. -/
def declares (es : Entries) (property : String) : Bool :=
  ((es.mappingAt "properties").field? property).isSome

/-- Whether a raw schema lists a property as required. -/
def requires (es : Entries) (property : String) : Bool :=
  (es.listAt "required").any (·.isText property)

end Entries

namespace Components

/-- The raw schema that a raw schema stands for: itself if it is in line, and for a reference the
body of the component at the end of the whole chain. -/
inductive Resolves (cs : Components) : Raw → Entries → Prop
  | inline {raw : Raw} {es : Entries} (h : raw.inline? = some es) : Resolves cs raw es
  | reference {raw : Raw} {name target : String} {es : Entries}
      (hname : cs.referredName? raw = some name) (hends : cs.EndsAt name target (.dict es)) :
      Resolves cs raw es

/-- The raw schema that governs the literals of a raw schema, with nothing in it if there is none.
-/
def shapeOf (cs : Components) (raw : Raw) : Entries := (cs.governing? raw).getD []

/-- What there is to report about a member under a name, given the raw schema that it stands for. -/
def memberReport (rule : String) (pointer : Pointer) (property name : String) (es : Entries) :
    List Finding :=
  (if es.declares property then []
    else [⟨rule, pointer, Discrimination.missingMessage name property,
      .discriminatorPropertyMissing⟩])
  ++ (if es.requires property then []
    else [⟨rule, pointer, Discrimination.notRequiredMessage name property,
      .discriminatorNotRequired⟩])

/-- What there is to report about a composition of a raw schema: the members in order, each under
the name that its own reference gives or under its number. -/
def compositionReport (cs : Components) (kind : CompositionKind) (es : Entries)
    (pointer : Pointer) : List Finding :=
  match Discrimination.ruleName? kind, es.discriminatorName? with
  | some rule, some property =>
    (es.listAt kind.keyword).zipIdx.flatMap fun (raw, i) =>
      memberReport rule (pointer.join [kind.keyword]) property
        ((cs.referredName? raw).getD s!"<inline #{i}>") (cs.shapeOf raw)
  | _, _ => []

/-- How many members of a composition do not declare the property, and how many do not require it,
put together. -/
def lapses (cs : Components) (kind : CompositionKind) (es : Entries) : Nat :=
  match Discrimination.ruleName? kind, es.discriminatorName? with
  | some _, some property =>
    ((es.listAt kind.keyword).countP fun raw => !(cs.shapeOf raw).declares property)
      + (es.listAt kind.keyword).countP fun raw => !(cs.shapeOf raw).requires property
  | _, _ => 0

variable {cs : Components} {raw : Raw} {es : Entries}

/-! ### Resolved members -/

lemma Resolves.shapeOf_eq (h : cs.Resolves raw es) : cs.shapeOf raw = es := by
  cases h with
  | inline h =>
    obtain ⟨rfl, hplain⟩ := Raw.inline?_eq_some_iff.mp h
    rw [shapeOf, governing?_inline hplain, Option.getD_some]
  | reference hname hends => rw [shapeOf, governing?_of_endsAt hname hends, Option.getD_some]

/-! ### Agreement -/

lemma mem_sortedNames {names : List String} {name : String} :
    name ∈ sortedNames names ↔ name ∈ names := by
  rw [sortedNames, List.mem_mergeSort, List.mem_eraseDups]

section Admitted

variable (hes : Envelope.IsAdmitted (.dict es))
include hes

lemma discriminatorProperty?_outline (hkeyed : (Raw.dict es).isTextKeyed = true) :
    es.outline.discriminatorProperty? = es.discriminatorName? := by
  change ((discriminatorOf Pointer.root (es.field "discriminator")).toOption.join).map _ = _
  rw [Entries.discriminatorName?, Entries.field]
  cases hvalue : es.field? "discriminator" with
  | none => rfl
  | some value =>
    have hdiscriminator := Envelope.isDiscriminator_of_field? hes hvalue
    dsimp only [Option.getD_some]
    cases value with
    | str property => rfl
    | dict parts =>
      rw [Envelope.isDiscriminator, Bool.and_eq_true] at hdiscriminator
      obtain ⟨hname, hmapping⟩ := hdiscriminator
      have hentries : ∃ mapping, entriesOf (Entries.field parts "mapping") = .ok mapping
          ∧ requireNames (mapping.flatMap fun e => [e.1, e.2]) = .ok () := by
        rw [Entries.field]
        cases hfound : Entries.field? parts "mapping" with
        | none => exact ⟨[], rfl, rfl⟩
        | some mapping =>
          rw [hfound, Option.all_some, Envelope.isTextMapping_iff] at hmapping
          obtain ⟨entries, rfl, htexts⟩ := hmapping
          refine ⟨entries, rfl, requireNames_eq_ok_iff.mpr fun r hr => ?_⟩
          obtain ⟨e, he, hr⟩ := List.mem_flatMap.mp hr
          have hparts := Raw.isTextKeyed_field? (Raw.isTextKeyed_field? hkeyed hvalue) hfound
          obtain ⟨⟨key, hkey⟩, -⟩ := Raw.isTextKeyed_of_mem_dict hparts he
          obtain ⟨text, htext⟩ := htexts e he
          rcases List.mem_pair.mp hr with rfl | rfl
          · rw [hkey, Raw.isWritable_str]
          · rw [htext, Raw.isWritable_str]
      obtain ⟨mapping, hentries, htexts⟩ := hentries
      cases hfound : Entries.field? parts "propertyName" with
      | none => simp [hfound] at hname
      | some name =>
        rw [hfound, Option.any_some] at hname
        cases name with
        | str property =>
          simp only [discriminatorOf, hfound, hentries]
          change Option.map _ (requireNames _ >>= fun _ => _).toOption.join = _
          rw [htexts]
          rfl
        | _ => cases hname
    | _ => cases hdiscriminator

lemma mem_required_outline_iff (property : String) :
    property ∈ es.outline.required ↔ es.requires property = true := by
  have hrequired : es.outline.required
      = sortedNames ((elementsOf (es.field "required")).toOption.getD [] |>.map Raw.text) := rfl
  rw [hrequired, mem_sortedNames, Entries.requires, Entries.listAt, Entries.field]
  cases hvalue : es.field? "required" with
  | none => simp [elementsOf, Raw.isVoid, Except.toOption]
  | some value =>
    obtain ⟨texts, rfl⟩ := Envelope.exists_texts_of_required hes hvalue
    cases texts with
    | nil => simp [elementsOf, Raw.isVoid, Except.toOption]
    | cons text texts =>
      have hsymm : property = text ↔ text = property := eq_comm
      simp [elementsOf, Raw.isVoid, Except.toOption, Raw.elements?, Raw.isText_iff, hsymm]

end Admitted

lemma memberFindings_eq_memberReport (hraw : Envelope.IsAdmitted (.dict (cs.shapeOf raw)))
    (rule : String) (pointer : Pointer) (property : String) (index : Nat) :
    cs.memberFindings rule pointer property index raw
      = memberReport rule pointer property
        ((cs.referredName? raw).getD s!"<inline #{index}>") (cs.shapeOf raw) := by
  rw [memberFindings, memberReport]
  congr 1
  exact if_congr (mem_required_outline_iff hraw property) rfl rfl

/-- What is found about a composition of an admitted schema, all members of which stand for admitted
schemas, is what there is to report. -/
lemma compositionFindings_eq_report (hes : Envelope.IsAdmitted (.dict es))
    (hkeyed : (Raw.dict es).isTextKeyed = true) {kind : CompositionKind}
    (hshape : ∀ raw ∈ es.listAt kind.keyword, Envelope.IsAdmitted (.dict (cs.shapeOf raw)))
    (pointer : Pointer) :
    cs.compositionFindings es kind pointer = cs.compositionReport kind es pointer := by
  simp only [compositionFindings, compositionReport, discriminatorProperty?_outline hes hkeyed,
    Entries.composition_outline]
  cases Discrimination.ruleName? kind with
  | none => rfl
  | some rule =>
    cases es.discriminatorName? with
    | none => rfl
    | some property =>
      refine List.flatMap_congr fun e he => ?_
      exact memberFindings_eq_memberReport (hshape e.1 (List.fst_mem_of_mem_zipIdx he)) _ _ _ _

/-! ### Reports -/

lemma of_mem_memberReport {rule property name : String} {pointer : Pointer} {f : Finding}
    (h : f ∈ memberReport rule pointer property name es) :
    f.rule = rule ∧ f.isDiscrimination = true := by
  rw [memberReport, List.mem_append] at h
  rcases h with h | h
  · split at h
    · cases h
    · rw [List.mem_singleton.mp h]
      exact ⟨rfl, rfl⟩
  · split at h
    · cases h
    · rw [List.mem_singleton.mp h]
      exact ⟨rfl, rfl⟩

lemma of_mem_compositionReport {kind : CompositionKind} {pointer : Pointer}
    {f : Finding} (h : f ∈ cs.compositionReport kind es pointer) :
    Discrimination.ruleName? kind = some f.rule ∧ f.isDiscrimination = true := by
  unfold compositionReport at h
  split at h
  · next rule property hrule _ =>
    obtain ⟨e, _, hmember⟩ := List.mem_flatMap.mp h
    obtain ⟨rfl, hkind⟩ := of_mem_memberReport hmember
    exact ⟨hrule, hkind⟩
  · cases h

lemma length_memberReport (rule : String) (pointer : Pointer) (property name : String) :
    (memberReport rule pointer property name es).length
      = (if es.declares property then 0 else 1) + if es.requires property then 0 else 1 := by
  rw [memberReport, List.length_append]
  congr 1
  · split <;> rfl
  · split <;> rfl

/-- A report says one thing for each member that does not declare the property, and one for each
that does not require it. -/
lemma length_compositionReport (kind : CompositionKind) (es : Entries)
    (pointer : Pointer) :
    (cs.compositionReport kind es pointer).length = cs.lapses kind es := by
  have hmembers : ∀ (rule property : String) (pointer : Pointer) (raws : List Raw) (start : Nat),
      ((raws.zipIdx start).flatMap fun (raw, i) => memberReport rule pointer property
        ((cs.referredName? raw).getD s!"<inline #{i}>") (cs.shapeOf raw)).length
      = (raws.countP fun raw => !(cs.shapeOf raw).declares property)
        + raws.countP fun raw => !(cs.shapeOf raw).requires property := by
    intro rule property pointer raws
    induction raws with
    | nil => exact fun _ => rfl
    | cons raw raws ih =>
      intro start
      rw [List.zipIdx_cons, List.flatMap_cons, List.length_append, length_memberReport, ih,
        List.countP_cons, List.countP_cons]
      cases (cs.shapeOf raw).declares property <;> cases (cs.shapeOf raw).requires property <;> simp <;> omega
  unfold compositionReport lapses
  cases Discrimination.ruleName? kind with
  | none => rfl
  | some rule =>
    cases es.discriminatorName? with
    | none => rfl
    | some property => exact hmembers rule property _ _ 0

lemma countP_compositionReport (kind : CompositionKind) (pointer : Pointer) :
    (cs.compositionReport kind es pointer).countP Finding.isDiscrimination = cs.lapses kind es := by
  rw [← length_compositionReport kind es pointer, List.countP_eq_length]
  exact fun f hf => (of_mem_compositionReport hf).2

/-- The findings about an admitted schema, sorted by what they are about: those about its `oneOf`,
those about its `anyOf`, and those about its literals. -/
lemma schemaFindings_eq_reports (hes : Envelope.IsAdmitted (.dict es))
    (hkeyed : (Raw.dict es).isTextKeyed = true)
    (hshape : ∀ kind : CompositionKind, ∀ raw ∈ es.listAt kind.keyword,
      Envelope.IsAdmitted (.dict (cs.shapeOf raw))) (pointer : Pointer) :
    cs.schemaFindings es pointer
      = cs.compositionReport .oneOf es pointer ++ cs.compositionReport .anyOf es pointer
        ++ cs.literalFindings es pointer := by
  rw [schemaFindings, compositionFindings_eq_report hes hkeyed (hshape _),
    compositionFindings_eq_report hes hkeyed (hshape _)]

lemma eq_mismatch_of_mem_literalFindings {pointer : Pointer} {f : Finding}
    (h : f ∈ cs.literalFindings es pointer) : ∃ place, f = Matching.mismatch place := by
  obtain ⟨l, _, h⟩ := List.mem_flatMap.mp h
  obtain ⟨path, _, rfl⟩ := List.mem_map.mp h
  exact ⟨_, rfl⟩

lemma filter_literalFindings_isAbout (kind : CompositionKind) (pointer : Pointer) :
    (cs.literalFindings es pointer).filter (·.isAbout kind) = [] := by
  rw [List.filter_eq_nil_iff]
  intro f hf
  obtain ⟨place, rfl⟩ := eq_mismatch_of_mem_literalFindings hf
  change ¬(some Matching.ruleName == Discrimination.ruleName? kind) = true
  cases kind <;> decide

lemma countP_literalFindings (pointer : Pointer) :
    (cs.literalFindings es pointer).countP Finding.isDiscrimination = 0 := by
  rw [List.countP_eq_zero]
  intro f hf
  obtain ⟨place, rfl⟩ := eq_mismatch_of_mem_literalFindings hf
  exact Bool.false_ne_true

/-- What is reported about a composition, the rule of that composition reports. -/
lemma filter_compositionReport (kind kind' : CompositionKind)
    (pointer : Pointer) :
    (cs.compositionReport kind es pointer).filter (·.isAbout kind')
      = if kind = kind' then cs.compositionReport kind es pointer else [] := by
  split
  · next heq =>
    subst heq
    rw [List.filter_eq_self]
    intro f hf
    simp [Finding.isAbout, (of_mem_compositionReport hf).1]
  · next hne =>
    rw [List.filter_eq_nil_iff]
    intro f hf
    have hrule := (of_mem_compositionReport hf).1
    rw [Finding.isAbout, ← hrule]
    revert hne
    cases kind <;> cases kind' <;> decide

end Components

end ApiLint
