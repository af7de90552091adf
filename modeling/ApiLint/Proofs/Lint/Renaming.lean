import ApiLint.Proofs.Document.Renaming
import ApiLint.Proofs.Lint.Components

/-!
# Names of components are only names

If components are declared under other names and the references to them follow, then a document
loads as before and a linter finds the same: only the names in pointers and messages are others.
This is so for names that have text. A reference to a component without a name is not taken for a
reference, and what is found about that component is found again wherever it is referred to.
-/

namespace ApiLint

namespace LoadedDocument

variable {document document' : Raw} {d d' : LoadedDocument} {cs cs' : Components}
  {σ : String → String} {ρ : String → String → Prop} {g : List String → Raw → Raw}

/-- The walks that a linter performs for renamed components are those for the components as they
were, in the same order, and they find the same. -/
lemma forall₂_walks_of_renames (hdocument : document.isTextKeyed = true)
    (hdocument' : document'.isTextKeyed = true) (hcs : Components.ofDocument document = .ok cs)
    (hcs' : Components.ofDocument document' = .ok cs') (h : ofRaw document = .ok d)
    (h' : ofRaw document' = .ok d') (hnames : "" ∉ cs.names) (hnames' : "" ∉ cs'.names)
    (hrenames : cs.Renames cs' σ ρ g) :
    List.Forall₂ (fun w w' => ∃ name ∈ cs.names, EchoingWalks ρ cs cs' d d' name (σ name) w w')
      (d.walks RuleSet.builtin) (d'.walks RuleSet.builtin) := by
  have hcorresponds := corresponds_of_renames hdocument hdocument' hcs hcs' h hrenames
  rw [walks_eq_filterMap (nodup_names_of_ofRaw hdocument hcs h),
    walks_eq_filterMap (nodup_names_of_ofRaw hdocument' hcs' h'),
    names_of_ofRaw hdocument hcs h, names_of_ofRaw hdocument' hcs' h', hrenames.names_eq,
    List.filterMap_map]
  have hsame : List.Forall₂ (fun name name' => name ∈ cs.names ∧ name = name') cs.names
      cs.names :=
    (List.forall₂_and_left _ _).mpr ⟨fun _ hname => hname, List.forall₂_eq_eq_eq ▸ rfl⟩
  refine List.rel_filterMap ?_ hsame
  rintro name _ ⟨hname, rfl⟩
  have halias' := find?_aliases_of_renames hdocument hdocument' hcs hcs' h h' hrenames hname
  cases halias : Fields.find? d.aliases name with
  | some target =>
    rw [halias] at halias'
    simp only [walkOf, Function.comp_apply, halias, halias']
    exact .none
  | none =>
    rw [halias] at halias'
    obtain ⟨w, _, w', _, hwalks⟩ := exists_echoingWalks hdocument hdocument' hcs hcs' h h' hnames
      hnames' hcorresponds (hrenames.self name hname) halias halias'
    rw [Function.comp_apply, hwalks.1, hwalks.2.1]
    exact .some ⟨name, hname, hwalks⟩

end LoadedDocument

namespace Lint

/-- A document that declares the components of another one under new names, which have text, loads
if that loads, and with the renamed aliases. The walks of a linter find the same in the same order,
below the pointers to the renamed components and with the new names of members. -/
theorem names_are_only_names {document document' : Raw} {cs : Components} {d : LoadedDocument}
    {σ : String → String} (hdocument : document.isTextKeyed = true)
    (hdocument' : document'.isTextKeyed = true) (hcs : Components.ofDocument document = .ok cs)
    (hcs' : Components.ofDocument document' = .ok (cs.rename σ))
    (h : LoadedDocument.ofRaw document = .ok d)
    (hinjective : ∀ name ∈ cs.names, ∀ other ∈ cs.names, σ name = σ other → name = other)
    (hnames : "" ∉ cs.names) (hnames' : "" ∉ cs.names.map σ) :
    ∃ d', LoadedDocument.ofRaw document' = .ok d' ∧ d'.names = d.names.map σ
      ∧ d'.aliases = d.aliases.map (fun declared => (σ declared.1, σ declared.2))
      ∧ List.Forall₂ (fun w w' => ∃ name ∈ d.names, LoadedDocument.EchoingWalks
          (fun member member' => member ∈ d.names ∧ member' = σ member) cs (cs.rename σ) d d'
          name (σ name) w w')
        (d.walks RuleSet.builtin) (d'.walks RuleSet.builtin) := by
  have hrenames := Components.renames_rename hinjective
  rw [← hrenames.names_eq] at hnames'
  obtain ⟨d', h'⟩ := LoadedDocument.exists_of_renames hdocument hdocument' hcs hcs' h hrenames
  rw [LoadedDocument.names_of_ofRaw hdocument hcs h]
  refine ⟨d', h', ?_, ?_, ?_⟩
  · rw [LoadedDocument.names_of_ofRaw hdocument' hcs' h', hrenames.names_eq]
  · exact LoadedDocument.aliases_of_renames hdocument hdocument' hcs hcs' h h' hrenames
  · exact LoadedDocument.forall₂_walks_of_renames hdocument hdocument' hcs hcs' h h' hnames hnames'
      hrenames

/-- Names for the components of the sample document that have to be escaped in pointers, or are the
former names of others. -/
def sampleRenaming (name : String) : String :=
  if name = "Tag" then "Pet" else if name = "Pet" then "~a/b#" else name

def renamedDocument : Raw :=
  .ofFields [("openapi", .str "3.0.0"),
    ("components", .ofFields [("schemas", .dict (sampleComponents.rename sampleRenaming).entries)])]

theorem names_are_only_names_sample :
    ∃ d d', LoadedDocument.ofRaw sampleDocument = .ok d
      ∧ LoadedDocument.ofRaw renamedDocument = .ok d'
      ∧ d'.names = d.names.map sampleRenaming
      ∧ d'.aliases = d.aliases.map (fun declared =>
        (sampleRenaming declared.1, sampleRenaming declared.2))
      ∧ List.Forall₂ (fun w w' => ∃ name ∈ d.names, LoadedDocument.EchoingWalks
          (fun member member' => member ∈ d.names ∧ member' = sampleRenaming member)
          sampleComponents (sampleComponents.rename sampleRenaming) d d' name (sampleRenaming name)
          w w')
        (d.walks RuleSet.builtin) (d'.walks RuleSet.builtin) := by
  obtain ⟨d, h⟩ := ofRaw_sample
  have hkeyed : sampleDocument.isTextKeyed = true := by decide
  have hkeyed' : renamedDocument.isTextKeyed = true := by decide +kernel
  have hcs' : Components.ofDocument renamedDocument
      = .ok (sampleComponents.rename sampleRenaming) := by rfl
  have hinjective : ∀ name ∈ sampleComponents.names, ∀ other ∈ sampleComponents.names,
      sampleRenaming name = sampleRenaming other → name = other := by decide +kernel
  obtain ⟨d', h', hrest⟩ := names_are_only_names hkeyed hkeyed' ofDocument_sample hcs' h hinjective
    (by decide) (by decide +kernel)
  exact ⟨d, d', h, h', hrest⟩

/-- A component with a default that departs from it, and another one that refers to it. -/
def labelComponents : Components :=
  ⟨⟨.openapi, 3, 0, 0⟩,
    [(.str "Holder", .ofFields [("properties", .ofFields [
        ("label", .ofFields [("$ref", .str "#/components/schemas/Label")])])]),
      (.str "Label", .ofFields [("type", .str "string"), ("default", .int 5)])]⟩

def documentOf (cs : Components) : Raw :=
  .ofFields [("openapi", .str "3.0.0"), ("components", .ofFields [("schemas", .dict cs.entries)])]

/-- The name that is left out of all names but one. -/
def withoutLabel (name : String) : String := if name = "Label" then "" else name

/-- If a component has no name, then what is found about it is found again where it is referred
to. -/
theorem label_without_name_is_found_twice :
    (∀ name ∈ labelComponents.names, ∀ other ∈ labelComponents.names,
      withoutLabel name = withoutLabel other → name = other)
    ∧ (lintDocument RuleSet.builtin [] (documentOf labelComponents) default).result.errors.map
        LintEntry.pointer = [some "#/components/schemas/Label/default"]
    ∧ (lintDocument RuleSet.builtin [] (documentOf (labelComponents.rename withoutLabel))
        default).result.errors.map LintEntry.pointer
      = [some "#/components/schemas/Holder/properties/label/default",
        some "#/components/schemas//default"] := by
  refine ⟨by decide +kernel, by decide +kernel, by decide +kernel⟩

end Lint

end ApiLint
