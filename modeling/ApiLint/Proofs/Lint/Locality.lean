import ApiLint.Proofs.Document.References
import ApiLint.Proofs.Lint.Components
import ApiLint.Proofs.Matching.Echoes

/-!
# What is found about a component is local

What the walk of a component finds depends on nothing but the raw schemas of the components that it
reaches. In particular the order in which components are declared does not matter, nor do the
components that it does not reach.
-/

namespace ApiLint

/-- Below the same pointer, and with the same names of components, a finding is echoed by itself. -/
lemma Finding.Echoes.eq {ρ : String → String → Prop} (hρ : ∀ name name', ρ name name' → name = name')
    {base : Pointer} {f f' : Finding} (h : Finding.Echoes ρ base base f f') : f = f' := by
  have hmember : ∀ {member member'}, SameMember ρ member member' → member = member' := by
    rintro _ _ (hname | _)
    · exact hρ _ _ hname
    · rfl
  cases h with
  | mismatch => rfl
  | missing hsame => rw [hmember hsame]
  | notRequired hsame => rw [hmember hsame]

namespace Lint

/-- If two documents of one family declare the same raw schemas under all names that a component
reaches, and the component is no alias, then the walks of the component in either find the same. -/
theorem findings_of_component_are_local {document document' : Raw} {cs cs' : Components}
    {d d' : LoadedDocument} {name : String} (hdocument : document.isTextKeyed = true)
    (hdocument' : document'.isTextKeyed = true) (hcs : Components.ofDocument document = .ok cs)
    (hcs' : Components.ofDocument document' = .ok cs') (h : LoadedDocument.ofRaw document = .ok d)
    (h' : LoadedDocument.ofRaw document' = .ok d') (hnames : "" ∉ cs.names)
    (hnames' : "" ∉ cs'.names) (hname : name ∈ cs.names)
    (halias : Fields.find? d.aliases name = none)
    (hfamily : cs'.version.family = cs.version.family)
    (hbody : ∀ other, cs.Reaches name other →
      Entries.field? cs'.entries other = Entries.field? cs.entries other) :
    ∃ w ∈ d.walks RuleSet.builtin, ∃ w' ∈ d'.walks RuleSet.builtin,
      d.walkOf RuleSet.builtin name = some w ∧ d'.walkOf RuleSet.builtin name = some w'
      ∧ ∃ fs, w.findings = .ok fs ∧ w'.findings = .ok fs := by
  have hagree : cs.AgreeFrom cs' name := ⟨hfamily, hbody⟩
  obtain ⟨es, hfound, hplain⟩ :=
    (LoadedDocument.find?_aliases_eq_none_iff hdocument hcs h hname).mp halias
  have hfound' := (hbody name .refl).trans hfound
  have halias' := (LoadedDocument.find?_aliases_eq_none_iff hdocument' hcs' h'
    (Components.mem_names_of_field? hfound')).mpr ⟨es, hfound', hplain⟩
  have hcorresponds := LoadedDocument.corresponds_of_agreeFrom hdocument hcs h hname hagree
  obtain ⟨w, hw, w', hw', hwalk, hwalk', fs, fs', hfindings, hfindings', hechoes⟩ :=
    LoadedDocument.exists_echoingWalks hdocument hdocument' hcs hcs' h h' hnames hnames'
      hcorresponds ⟨rfl, .refl⟩ halias halias'
  have hsame : fs = fs' := by
    rw [Components.pointerTo_congr hfamily] at hechoes
    rw [← List.forall₂_eq_eq_eq]
    exact hechoes.imp fun _ _ hf => hf.eq fun _ _ hnames => hnames.1
  exact ⟨w, hw, w', hw', hwalk, hwalk', fs, hfindings, hsame ▸ hfindings'⟩

/-- The schemas of the sample document in another order, and one more that no other refers to. -/
def reorderedSchemas : Entries :=
  (.str "Owner", .ofFields [
    ("properties", .ofFields [("pet", .ofFields [("$ref", .str "#/components/schemas/Pet")])]),
    ("example", .ofFields [("pet", .int 1)])]) :: sampleSchemas.reverse

def reorderedDocument : Raw :=
  .ofFields [("openapi", .str "3.1.0"),
    ("components", .ofFields [("schemas", .dict reorderedSchemas)])]

def reorderedComponents : Components := ⟨⟨.openapi, 3, 1, 0⟩, reorderedSchemas⟩

theorem findings_of_component_are_local_reordered :
    ∃ d d', LoadedDocument.ofRaw sampleDocument = .ok d
      ∧ LoadedDocument.ofRaw reorderedDocument = .ok d'
      ∧ Fields.find? d.aliases "Pet" = none
      ∧ (∀ other, sampleComponents.Reaches "Pet" other →
        Entries.field? reorderedComponents.entries other
          = Entries.field? sampleComponents.entries other)
      ∧ ∃ w ∈ d.walks RuleSet.builtin, ∃ w' ∈ d'.walks RuleSet.builtin,
        d.walkOf RuleSet.builtin "Pet" = some w ∧ d'.walkOf RuleSet.builtin "Pet" = some w'
        ∧ ∃ fs, w.findings = .ok fs ∧ w'.findings = .ok fs := by
  obtain ⟨d, h⟩ := ofRaw_sample
  obtain ⟨d', h'⟩ : ∃ d', LoadedDocument.ofRaw reorderedDocument = .ok d' :=
    exists_ok_of_isSome (by decide +kernel)
  have hkeyed : sampleDocument.isTextKeyed = true := by decide
  have halias : Fields.find? d.aliases "Pet" = none := by
    rw [LoadedDocument.aliases_eq hkeyed ofDocument_sample h]
    decide +kernel
  have hbody : ∀ other, sampleComponents.Reaches "Pet" other →
      Entries.field? reorderedComponents.entries other
        = Entries.field? sampleComponents.entries other := by
    intro other hreaches
    have hother := LoadedDocument.mem_names_of_reaches hkeyed ofDocument_sample h (by decide)
      hreaches
    have hcases : other = "Tag" ∨ other = "Label" ∨ other = "Pet" := by
      simpa [sampleComponents, sampleSchemas, Components.names] using hother
    rcases hcases with rfl | rfl | rfl <;> rfl
  have hcs' : Components.ofDocument reorderedDocument = .ok reorderedComponents := by rfl
  refine ⟨d, d', h, h', halias, hbody, ?_⟩
  have hfamily : reorderedComponents.version.family = sampleComponents.version.family := rfl
  exact findings_of_component_are_local hkeyed (by decide) ofDocument_sample hcs' h h' (by decide)
    (by decide) (by decide) halias hfamily hbody

end Lint

end ApiLint
