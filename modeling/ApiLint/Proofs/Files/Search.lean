import ApiLint.Files.Search
import ApiLint.Proofs.Files.Paths
import ApiLint.Proofs.Outcome

/-!
# Searching by name and by directory

What a search finds is the sorted union of what it finds at each path, and it fails where the system
refuses one of them. But the two ways to a file differ. A file that is named is known by the suffix
of its name, in capitals or small letters. In a directory the names of all entries are taken that
end in one of the suffixes as they stand: those of directories too, and those that are nothing but
such an ending and so have no suffix; and what stands in a directory that may not be listed is
passed over.
-/

namespace ApiLint

open FilePath

/-- A path to what stands somewhere in a directory: the path to the directory, and names from there.
-/
def FilePath.IsBelow (q d : FilePath) : Prop :=
  ∃ names, names ≠ [] ∧ ".." ∉ names ∧ q = d.under names

namespace FileTree

variable {t : FileTree} {d q f : FilePath} {here names : List String}

/-! ### Trees -/

/-- A tree whose entries stand in directories, under names that can be written. -/
structure IsWellFormed (t : FileTree) : Prop where
  names : ∀ entry ∈ t.entries, ∀ name ∈ entry.1, IsWritten name ∧ name ≠ ".."
  parents : ∀ entry ∈ t.entries, t.isDirectoryAt entry.1.dropLast

lemma isSome_entryAt?_iff (hne : names ≠ []) :
    (t.entryAt? names).isSome ↔ ∃ entry ∈ t.entries, entry.1 = names := by
  rw [entryAt?, if_neg (by simpa using hne), ← Option.ne_none_iff_isSome, Ne,
    List.lookup_eq_none_iff, not_forall]
  refine exists_congr fun entry => ?_
  rw [Classical.not_imp, bne_iff_ne, Ne, not_not, eq_comm]

lemma isDirectoryAt_iff : t.isDirectoryAt names ↔ t.entryAt? names = some .directory := by
  rw [isDirectoryAt, beq_iff_eq]

lemma IsWellFormed.names_of_isSome (ht : t.IsWellFormed) (h : (t.entryAt? names).isSome) :
    ∀ name ∈ names, IsWritten name ∧ name ≠ ".." := by
  intro name hname
  obtain ⟨entry, hentry, rfl⟩ := (isSome_entryAt?_iff (List.ne_nil_of_mem hname)).mp h
  exact ht.names entry hentry name hname

/-- What an entry stands below is a directory. -/
lemma IsWellFormed.isDirectoryAt (ht : t.IsWellFormed) (hnames : (t.entryAt? names).isSome)
    (h : here <+: names) (hne : here ≠ names) : t.isDirectoryAt here := by
  induction names using List.reverseRecOn with
  | nil => exact absurd (List.prefix_nil.mp h) hne
  | append_singleton names name ih =>
    obtain ⟨entry, hentry, hkey⟩ := (isSome_entryAt?_iff (by simp)).mp hnames
    have hparent := ht.parents entry hentry
    rw [hkey, List.dropLast_concat] at hparent
    rcases List.prefix_concat_iff.mp h with heq | hbegin
    · exact absurd heq hne
    · by_cases heq : here = names
      · exact heq ▸ hparent
      · exact ih (by rw [isDirectoryAt_iff.mp hparent]; rfl) hbegin heq

lemma IsWellFormed.isSome_entryAt? (ht : t.IsWellFormed) (hnames : (t.entryAt? names).isSome)
    (h : here <+: names) : (t.entryAt? here).isSome := by
  by_cases hne : here = names
  · rwa [hne]
  · rw [isDirectoryAt_iff.mp (ht.isDirectoryAt hnames h hne)]
    rfl

/-- Names without `..` lead from a directory to what stands under them. -/
lemma IsWellFormed.foldlM_step (ht : t.IsWellFormed) (hup : ".." ∉ names) :
    (names.foldlM t.step here).bind t.entryAt? = t.entryAt? (here ++ names) := by
  induction names generalizing here with
  | nil => simp
  | cons name names ih =>
    obtain ⟨hname, hnames⟩ := List.ne_and_not_mem_of_not_mem_cons hup
    have hsplit : here ++ name :: names = here ++ [name] ++ names := by simp
    rw [List.foldlM_cons, step]
    by_cases hhere : t.isDirectoryAt here
    · rw [if_neg (by simpa using hhere), if_neg hname.symm]
      cases hentry : t.entryAt? (here ++ [name]) with
      | none =>
        refine (Option.not_isSome_iff_eq_none.mp fun hsome => ?_).symm
        have hbegin : here ++ [name] <+: here ++ name :: names := ⟨names, hsplit.symm⟩
        simpa [hentry] using ht.isSome_entryAt? hsome hbegin
      | some entry => exact (ih hnames).trans (by rw [hsplit])
    · rw [if_pos (by simpa using hhere)]
      refine (Option.not_isSome_iff_eq_none.mp fun hsome => hhere ?_).symm
      exact ht.isDirectoryAt hsome (List.prefix_append ..) (by simp)

lemma resolve_append (t : FileTree) (d : FilePath) (names : List String) :
    t.resolve (d.under names)
      = (t.resolve d).bind fun here => names.foldlM t.step here := by
  exact List.foldlM_append

/-- What a path leads to, unless it is refused. -/
def reached? (t : FileTree) (path : FilePath) : Option FileEntry := (t.resolve path).bind t.entryAt?

lemma lookup_eq_ok_iff {found? : Option FileEntry} :
    t.lookup d = .ok found? ↔ t.refused.lookup d = none ∧ t.reached? d = found? := by
  rw [lookup, reached?]
  cases t.refused.lookup d <;> simp

/-- What stands at a path below a directory, if the listing of the directory comes to it. -/
def Lists (t : FileTree) (d q : FilePath) : Prop :=
  ∃ names, names ≠ [] ∧ ".." ∉ names ∧ q = d.under names ∧ (t.reached? q).isSome
    ∧ t.isListed d names

lemma Lists.isBelow (h : t.Lists d q) : q.IsBelow d := by
  obtain ⟨names, hne, hup, rfl, -, -⟩ := h
  exact ⟨names, hne, hup, rfl⟩

lemma Lists.isSome (h : t.Lists d q) : (t.reached? q).isSome := by
  obtain ⟨names, -, -, rfl, hsome, -⟩ := h
  exact hsome

lemma exists_mem_listed_iff (hd : t.resolve d = some here) :
    (∃ entry, (names, entry) ∈ t.listed d)
      ↔ names ≠ [] ∧ (t.entryAt? (here ++ names)).isSome ∧ t.isListed d names := by
  simp only [listed, inside, hd, List.mem_filter, List.mem_filterMap, Option.ite_none_right_eq_some,
    Bool.and_eq_true, List.isPrefixOf_iff_prefix, decide_eq_true_eq, Option.some.injEq]
  constructor
  · rintro ⟨entry, ⟨⟨names', entry'⟩, hentry, ⟨⟨rest, rfl⟩, hlength⟩, heq⟩, hlisted⟩
    obtain ⟨rfl, rfl⟩ := Prod.mk.inj heq
    rw [List.drop_left] at hlisted ⊢
    have hne : rest ≠ [] := by
      rintro rfl
      simp at hlength
    exact ⟨hne, (isSome_entryAt?_iff (by simp [hne])).mpr ⟨_, hentry, rfl⟩, hlisted⟩
  · rintro ⟨hne, hsome, hlisted⟩
    obtain ⟨⟨names', entry⟩, hentry, rfl⟩ := (isSome_entryAt?_iff (by simp [hne])).mp hsome
    refine ⟨entry, ⟨_, hentry, ⟨⟨names, rfl⟩, ?_⟩, ?_⟩, hlisted⟩
    · simpa using List.length_pos_iff.mpr hne
    · rw [List.drop_left]

lemma IsWellFormed.reached?_under (ht : t.IsWellFormed) (hd : t.resolve d = some here)
    (hup : ".." ∉ names) : t.reached? (d.under names) = t.entryAt? (here ++ names) := by
  rw [reached?, resolve_append, hd]
  exact ht.foldlM_step hup

/-- The listing of a directory comes to the paths that go on from it. -/
lemma IsWellFormed.lists_iff (ht : t.IsWellFormed) :
    t.Lists d q ↔ ∃ names entry, (names, entry) ∈ t.listed d ∧ q = d.under names := by
  cases hd : t.resolve d with
  | none =>
    have hnone : t.listed d = [] := by simp [listed, inside, hd]
    refine iff_of_false ?_ (by simp [hnone])
    rintro ⟨names, -, -, rfl, hsome, -⟩
    rw [reached?, resolve_append, hd] at hsome
    exact Bool.false_ne_true hsome
  | some here =>
    constructor
    · rintro ⟨names, hne, hup, rfl, hsome, hlisted⟩
      rw [ht.reached?_under hd hup] at hsome
      obtain ⟨entry, hentry⟩ := (exists_mem_listed_iff hd).mpr ⟨hne, hsome, hlisted⟩
      exact ⟨names, entry, hentry, rfl⟩
    · rintro ⟨names, entry, hentry, rfl⟩
      obtain ⟨hne, hsome, hlisted⟩ := (exists_mem_listed_iff hd).mp ⟨entry, hentry⟩
      have hup : ".." ∉ names := fun hmem =>
        (ht.names_of_isSome hsome _ (List.mem_append_right _ hmem)).2 rfl
      exact ⟨names, hne, hup, rfl, by rwa [ht.reached?_under hd hup], hlisted⟩

lemma IsWellFormed.mem_below_iff (ht : t.IsWellFormed) {found : List FilePath}
    (h : t.below d = .ok found) : q ∈ found ↔ t.Lists d q := by
  rw [below] at h
  split at h
  · cases h
  · cases h
    rw [ht.lists_iff, List.mem_map]
    constructor
    · rintro ⟨⟨names, entry⟩, hentry, rfl⟩
      exact ⟨names, entry, hentry, rfl⟩
    · rintro ⟨names, entry, hentry, rfl⟩
      exact ⟨_, hentry, rfl⟩

/-- The listing of a directory fails at a directory that it comes to, where listing is refused and
not for want of permission. -/
def ListingFails (t : FileTree) (d : FilePath) : Prop :=
  ∃ names ∈ t.listedDirectories d, ∃ refusal,
    t.unlisted.lookup (d.under names) = some refusal ∧ refusal.isDenial = false

lemma exists_below_eq_error_iff : (∃ refusal, t.below d = .error refusal) ↔ t.ListingFails d := by
  have hsome : ∀ refusal, refusal ∈ ((t.listedDirectories d).filterMap fun names =>
      (t.unlisted.lookup (d.under names)).filter (!·.isDenial))
        ↔ ∃ names ∈ t.listedDirectories d, t.unlisted.lookup (d.under names) = some refusal
          ∧ refusal.isDenial = false := by
    intro refusal
    simp [List.mem_filterMap, Option.filter_eq_some_iff]
  rw [below, ListingFails]
  cases hrefusals : (t.listedDirectories d).filterMap fun names =>
      (t.unlisted.lookup (d.under names)).filter (!·.isDenial) with
  | nil =>
    refine iff_of_false (by simp) ?_
    rintro ⟨names, hnames, refusal, hrefusal⟩
    exact List.not_mem_nil (hrefusals ▸ (hsome refusal).mpr ⟨names, hnames, hrefusal⟩)
  | cons refusal _ =>
    refine iff_of_true ⟨refusal, rfl⟩ ?_
    obtain ⟨names, hnames, h⟩ := (hsome refusal).mp (hrefusals ▸ List.mem_cons_self ..)
    exact ⟨names, hnames, refusal, h⟩

/-- What stands below a directory is found by the text of its path. -/
lemma IsWellFormed.isNormal_of_isBelow (ht : t.IsWellFormed) (hd : d.IsNormal) (h : q.IsBelow d)
    (hsome : (t.reached? q).isSome) : q.IsNormal := by
  obtain ⟨names, -, hup, rfl⟩ := h
  cases hresolve : t.resolve d with
  | none =>
    rw [reached?, resolve_append, hresolve] at hsome
    exact absurd hsome Bool.false_ne_true
  | some here =>
    rw [ht.reached?_under hresolve hup] at hsome
    refine ⟨hd.root, fun name hname => ?_⟩
    rcases List.mem_append.mp hname with hname | hname
    · exact hd.names name hname
    · exact (ht.names_of_isSome hsome name (List.mem_append_right _ hname)).1

/-! ### Endings -/

lemma endsIn_iff {name : String} {letters : List Char} (hne : letters ≠ []) (hdot : '.' ∉ letters) :
    endsIn name (String.ofList ('.' :: letters))
      ↔ suffixOf name = String.ofList ('.' :: letters) ∨ name = String.ofList ('.' :: letters) := by
  rw [endsIn, List.isSuffixOf_iff_suffix, String.toList_ofList]
  refine ⟨?_, ?_⟩
  · rintro ⟨before, hbefore⟩
    obtain rfl : name = String.ofList (before ++ '.' :: letters) := by
      rw [hbefore, String.ofList_toList]
    rw [suffixOf_append before hne hdot]
    cases before with
    | nil => exact .inr rfl
    | cons c before => exact .inl rfl
  · rintro (h | h)
    · simpa [h] using suffixOf_suffix name
    · simp [h]

/-- A suffix of documents is a dot and letters. -/
lemma exists_of_mem_documentSuffixes {ending : String} (h : ending ∈ documentSuffixes) :
    ∃ letters, letters ≠ [] ∧ '.' ∉ letters ∧ ending = String.ofList ('.' :: letters) := by
  refine ⟨ending.toList.tail, ?_⟩
  revert ending
  decide

/-- A path ends as documents do if it has one of their suffixes as it stands, or if its last name is
one. -/
lemma hasDocumentEnding_iff :
    hasDocumentEnding q ↔ q.suffix ∈ documentSuffixes
      ∨ ∃ name ∈ q.names.getLast?, name ∈ documentSuffixes := by
  have hempty : "" ∉ documentSuffixes := by decide
  rw [hasDocumentEnding, suffix]
  cases q.names.getLast? with
  | none => simp [hempty]
  | some name =>
    have hends : ∀ ending ∈ documentSuffixes,
        endsIn name ending = true ↔ suffixOf name = ending ∨ name = ending := by
      intro ending hending
      obtain ⟨letters, hne, hdot, rfl⟩ := exists_of_mem_documentSuffixes hending
      exact endsIn_iff hne hdot
    simp only [Option.any_some, List.any_eq_true, Option.map_some, Option.getD_some, Option.mem_def,
      Option.some.injEq, exists_eq_left']
    refine ⟨?_, ?_⟩
    · rintro ⟨ending, hmem, h⟩
      rcases (hends ending hmem).mp h with rfl | rfl
      · exact .inl hmem
      · exact .inr hmem
    · rintro (hmem | hmem)
      · exact ⟨_, hmem, (hends _ hmem).mpr (.inl rfl)⟩
      · exact ⟨_, hmem, (hends _ hmem).mpr (.inr rfl)⟩

/-! ### What a search finds -/

/-- What is found at the paths that texts are read as. -/
def search (t : FileTree) (texts : List String) : Except Refusal (List FilePath) :=
  (t.documents (texts.map .ofText)).documents

/-- Whether a file stands at a path. -/
def isFileAt (t : FileTree) (path : FilePath) : Bool :=
  match t.lookup path with
  | .ok (some (.file _)) | .ok (some (.unreadable _)) => true
  | _ => false

lemma lookup_of_isFileAt (h : t.isFileAt d) :
    ∃ entry, t.lookup d = .ok (some entry) ∧ entry ≠ .directory := by
  rw [isFileAt] at h
  split at h
  · next content heq => exact ⟨.file content, heq, nofun⟩
  · next reason heq => exact ⟨.unreadable reason, heq, nofun⟩
  · cases h

lemma documentsAt_of_isFileAt (h : t.isFileAt d) :
    (t.documentsAt d).documents = .ok (if hasDocumentSuffix d then [d] else []) := by
  rw [isFileAt] at h
  rw [documentsAt]
  split at h
  · next heq =>
    rw [heq]
    dsimp only
    split <;> rfl
  · next heq =>
    rw [heq]
    dsimp only
    split <;> rfl
  · cases h

lemma documentsAt_of_directory (h : t.lookup d = .ok (some .directory)) :
    (t.documentsAt d).documents = (t.below d).map (·.filter hasDocumentEnding) := by
  rw [documentsAt, h]

lemma documentsAt_of_refused {refusal : Refusal} (h : t.lookup d = .error refusal) :
    (t.documentsAt d).documents = .error refusal := by
  rw [documentsAt, h]

/-- Nothing is found where neither a file nor a directory stands. -/
lemma documentsAt_of_neither {found? : Option FileEntry} (h : t.lookup d = .ok found?)
    (hfile : t.isFileAt d = false) (hdirectory : found? ≠ some .directory) :
    (t.documentsAt d).documents = .ok [] := by
  rw [isFileAt, h] at hfile
  rw [documentsAt, h]
  cases found? with
  | none => rfl
  | some entry =>
    cases entry with
    | directory => exact absurd rfl hdirectory
    | special => rfl
    | file content => cases hfile
    | unreadable reason => cases hfile

lemma exists_documentsAt_eq_error_iff :
    (∃ refusal, (t.documentsAt d).documents = .error refusal)
      ↔ (∃ refusal, t.lookup d = .error refusal)
        ∨ (t.lookup d = .ok (some .directory) ∧ t.ListingFails d) := by
  cases hd : t.lookup d with
  | error refusal =>
    rw [documentsAt_of_refused hd]
    simp
  | ok found? =>
    by_cases hdirectory : found? = some .directory
    · subst hdirectory
      rw [documentsAt_of_directory hd, ← exists_below_eq_error_iff]
      cases t.below d <;> simp [Except.map]
    · have hfound : ∃ found, (t.documentsAt d).documents = .ok found := by
        cases hfile : t.isFileAt d with
        | true => exact ⟨_, documentsAt_of_isFileAt hfile⟩
        | false => exact ⟨_, documentsAt_of_neither hd hfile hdirectory⟩
      obtain ⟨found, hfound⟩ := hfound
      simp [hfound, hdirectory]

/-- At a path is found the file if it has a suffix of documents, or else what ends in one below the
directory. -/
lemma IsWellFormed.mem_documentsAt_iff (ht : t.IsWellFormed) {found : List FilePath}
    (h : (t.documentsAt d).documents = .ok found) :
    q ∈ found ↔ (q = d ∧ t.isFileAt q ∧ hasDocumentSuffix q)
      ∨ (t.lookup d = .ok (some .directory) ∧ t.Lists d q ∧ hasDocumentEnding q) := by
  cases hfile : t.isFileAt d with
  | true =>
    obtain ⟨entry, hentry, hdirectory⟩ := lookup_of_isFileAt hfile
    rw [documentsAt_of_isFileAt hfile] at h
    cases h
    by_cases hsuffix : hasDocumentSuffix d
    · simp +contextual [hentry, hdirectory, hfile, hsuffix]
    · simp +contextual [hentry, hdirectory, hsuffix]
  | false =>
    have hnone : ¬ (q = d ∧ t.isFileAt q ∧ hasDocumentSuffix q) := by
      rintro ⟨rfl, htrue, -⟩
      exact Bool.false_ne_true (hfile.symm.trans htrue)
    rw [or_iff_right hnone]
    cases hd : t.lookup d with
    | error refusal =>
      rw [documentsAt_of_refused hd] at h
      cases h
    | ok found? =>
      by_cases hdirectory : found? = some .directory
      · subst hdirectory
        rw [documentsAt_of_directory hd] at h
        cases hbelow : t.below d with
        | error refusal =>
          rw [hbelow] at h
          cases h
        | ok paths =>
          rw [hbelow] at h
          cases h
          rw [List.mem_filter, ht.mem_below_iff hbelow]
          exact (and_iff_right rfl).symm
      · rw [documentsAt_of_neither hd hfile hdirectory] at h
        cases h
        simp [hdirectory]

lemma IsWellFormed.isNormal_of_mem_documentsAt (ht : t.IsWellFormed) {found : List FilePath}
    (hd : d.IsNormal) (h : (t.documentsAt d).documents = .ok found) (hq : q ∈ found) :
    q.IsNormal := by
  rcases (ht.mem_documentsAt_iff h).mp hq with ⟨rfl, -⟩ | ⟨-, hlists, -⟩
  · exact hd
  · exact ht.isNormal_of_isBelow hd hlists.isBelow hlists.isSome

/-! ### Several paths -/

lemma search_eq (t : FileTree) (texts : List String) :
    t.search texts = (texts.mapM fun text => (t.documentsAt (ofText text)).documents).map
      fun found => sorted found.flatten := by
  have hfrom : (t.documentsFrom (texts.map .ofText)).documents
      = (texts.mapM fun text => (t.documentsAt (ofText text)).documents).map List.flatten := by
    induction texts with
    | nil => rfl
    | cons text texts ih =>
      rw [List.map_cons, documentsFrom, List.mapM_cons]
      dsimp only
      cases (t.documentsAt (ofText text)).documents with
      | error refusal => rfl
      | ok found =>
        dsimp only
        rw [ih]
        cases texts.mapM fun text => (t.documentsAt (ofText text)).documents <;> rfl
  rw [search, documents, hfrom]
  cases texts.mapM fun text => (t.documentsAt (ofText text)).documents <;> rfl

lemma search_singleton (t : FileTree) (text : String) :
    t.search [text] = ((t.documentsAt (ofText text)).documents).map sorted := by
  rw [search_eq, List.mapM_cons, List.mapM_nil]
  cases (t.documentsAt (ofText text)).documents with
  | error refusal => rfl
  | ok found =>
    change Except.ok (sorted [found].flatten) = Except.ok (sorted found)
    rw [List.flatten_singleton]

lemma IsWellFormed.isNormal_of_mem_flatten (ht : t.IsWellFormed) {texts : List String}
    {found : List (List FilePath)}
    (h : texts.mapM (fun text => (t.documentsAt (ofText text)).documents) = .ok found) :
    ∀ p ∈ found.flatten, p.IsNormal := by
  intro p hp
  obtain ⟨here, hhere, hp⟩ := List.mem_flatten.mp hp
  obtain ⟨text, -, htext⟩ := exists_of_mem_mapM h hhere
  exact ht.isNormal_of_mem_documentsAt (isNormal_ofText text) htext hp

lemma IsWellFormed.pairwise_search (ht : t.IsWellFormed) {texts : List String}
    {found : List FilePath} (h : t.search texts = .ok found) :
    found.Pairwise fun p q => p.parts < q.parts := by
  rw [search_eq] at h
  cases hfound : texts.mapM fun text => (t.documentsAt (ofText text)).documents with
  | error refusal =>
    rw [hfound] at h
    cases h
  | ok founds =>
    rw [hfound] at h
    cases h
    exact pairwise_sorted (ht.isNormal_of_mem_flatten hfound)

/-- A search finds what it finds for each text, and is refused where it is refused for the first. -/
lemma IsWellFormed.search_eq_mapM (ht : t.IsWellFormed) (texts : List String) :
    t.search texts
      = (texts.mapM fun text => t.search [text]).map fun found => sorted found.flatten := by
  have hsearch : (texts.mapM fun text => t.search [text])
      = (texts.mapM fun text => (t.documentsAt (ofText text)).documents).map (List.map sorted) := by
    simp only [search_singleton]
    exact mapM_map_except sorted texts
  rw [search_eq, hsearch]
  cases hfound : texts.mapM fun text => (t.documentsAt (ofText text)).documents with
  | error refusal => rfl
  | ok founds =>
    have hmem : ∀ p, p ∈ (founds.map sorted).flatten ↔ p ∈ founds.flatten := by
      simp [List.mem_flatten, mem_sorted]
    have hnormal := ht.isNormal_of_mem_flatten hfound
    refine congrArg Except.ok (sorted_eq_of_mem_iff hnormal ?_ fun p => mem_sorted.trans (hmem p))
    exact pairwise_sorted fun p hp => hnormal p ((hmem p).mp hp)

lemma exists_search_eq_error_iff {text : String} :
    (∃ refusal, t.search [text] = .error refusal)
      ↔ (∃ refusal, t.lookup (ofText text) = .error refusal)
        ∨ (t.lookup (ofText text) = .ok (some .directory) ∧ t.ListingFails (ofText text)) := by
  rw [← exists_documentsAt_eq_error_iff, search_singleton]
  cases (t.documentsAt (ofText text)).documents <;> simp [Except.map]

lemma IsWellFormed.mem_search_iff (ht : t.IsWellFormed) {text : String} {found : List FilePath}
    (h : t.search [text] = .ok found) :
    q ∈ found ↔ (q = ofText text ∧ t.isFileAt q ∧ hasDocumentSuffix q)
      ∨ (t.lookup (ofText text) = .ok (some .directory) ∧ t.Lists (ofText text) q
        ∧ hasDocumentEnding q) := by
  rw [search_singleton] at h
  cases hfound : (t.documentsAt (ofText text)).documents with
  | error refusal =>
    rw [hfound] at h
    cases h
  | ok paths =>
    rw [hfound] at h
    cases h
    rw [mem_sorted]
    exact ht.mem_documentsAt_iff hfound

/-! ### The two ways to a file -/

lemma hasDocumentSuffix_of_mem (h : q.suffix ∈ documentSuffixes) : hasDocumentSuffix q := by
  have hlower : ∀ suffix ∈ documentSuffixes, Text.lower suffix = suffix := by decide +kernel
  rwa [hasDocumentSuffix, List.contains_iff_mem, hlower _ h]

/-- A name that is nothing but a suffix has none. -/
lemma hasDocumentSuffix_eq_false {name : String} (hname : name ∈ q.names.getLast?)
    (h : name ∈ documentSuffixes) : hasDocumentSuffix q = false := by
  have hsuffix : ∀ name ∈ documentSuffixes, suffixOf name = "" := by decide +kernel
  rw [hasDocumentSuffix, suffix, hname, Option.map_some, Option.getD_some, hsuffix _ h]
  decide +kernel

/-- Endings and suffixes tell the same of a path unless its last name is nothing but an ending, or
its suffix has capitals. -/
lemma hasDocumentEnding_iff_hasDocumentSuffix :
    (hasDocumentEnding q ↔ hasDocumentSuffix q)
      ↔ (∀ name ∈ q.names.getLast?, name ∉ documentSuffixes)
        ∧ (hasDocumentSuffix q → q.suffix ∈ documentSuffixes) := by
  rw [hasDocumentEnding_iff]
  refine ⟨fun h => ⟨?_, ?_⟩, ?_⟩
  · intro name hname hmem
    have hsuffix := h.mp (.inr ⟨name, hname, hmem⟩)
    rw [hasDocumentSuffix_eq_false hname hmem] at hsuffix
    exact Bool.false_ne_true hsuffix
  · intro hsuffix
    rcases h.mpr hsuffix with hmem | ⟨name, hname, hmem⟩
    · exact hmem
    · rw [hasDocumentSuffix_eq_false hname hmem] at hsuffix
      exact absurd hsuffix Bool.false_ne_true
  · rintro ⟨hlast, hsmall⟩
    refine ⟨?_, fun h => .inl (hsmall h)⟩
    rintro (hmem | ⟨name, hname, hmem⟩)
    · exact hasDocumentSuffix_of_mem hmem
    · exact absurd hmem (hlast name hname)

/-- A search that is not refused finds what it finds for each text, in order and each path once. It
is refused where a text cannot be looked up, or leads to a directory whose listing fails. For one
text that is the file it leads to, if its suffix is one of documents in capitals or small letters;
or else what the listing of the directory it leads to comes to, a file or not, and ends in such a
suffix as it stands. So for a file below a directory that the listing comes to, to name it and to
name the directory come to the same unless its name is nothing but such an ending, or its suffix is
one of documents but has capitals; and a file that the listing does not come to is found by its name
only. -/
theorem search_by_name_and_directory (t : FileTree) (ht : t.IsWellFormed) (texts : List String) :
    (∀ found, t.search texts = .ok found → found.Pairwise fun p q => p.parts < q.parts)
    ∧ t.search texts
      = (texts.mapM fun text => t.search [text]).map (fun found => FilePath.sorted found.flatten)
    ∧ (∀ text, (∃ refusal, t.search [text] = .error refusal)
      ↔ (∃ refusal, t.lookup (ofText text) = .error refusal)
        ∨ (t.lookup (ofText text) = .ok (some .directory) ∧ t.ListingFails (ofText text)))
    ∧ (∀ text found, t.search [text] = .ok found → ∀ q, q ∈ found ↔
        (q = ofText text ∧ t.isFileAt q ∧ hasDocumentSuffix q)
        ∨ (t.lookup (ofText text) = .ok (some .directory) ∧ t.Lists (ofText text) q
          ∧ hasDocumentEnding q))
    ∧ ∀ text found f, t.lookup (ofText text) = .ok (some .directory) →
      t.search [text] = .ok found → f.IsBelow (ofText text) → t.isFileAt f →
        t.search [f.text] = .ok (if hasDocumentSuffix f then [f] else [])
        ∧ (t.Lists (ofText text) f → ((f ∈ found ↔ hasDocumentSuffix f) ↔
            (∀ name ∈ f.names.getLast?, name ∉ documentSuffixes)
            ∧ (hasDocumentSuffix f → f.suffix ∈ documentSuffixes)))
        ∧ (¬ t.Lists (ofText text) f → f ∉ found) := by
  have hone : ∀ text found, t.search [text] = .ok found → ∀ q, q ∈ found ↔ _ :=
    fun text found h q => ht.mem_search_iff h
  refine ⟨fun found => ht.pairwise_search, ht.search_eq_mapM texts,
    fun text => exists_search_eq_error_iff, hone, ?_⟩
  intro text found f hd hfound hbelow hf
  obtain ⟨entry, hentry, hdirectory⟩ := lookup_of_isFileAt hf
  have hreached : (t.reached? f).isSome := by
    rw [(lookup_eq_ok_iff.mp hentry).2]
    rfl
  have hread : ofText f.text = f :=
    ofText_text (ht.isNormal_of_isBelow (isNormal_ofText text) hbelow hreached)
  have hsearched : f ∈ found ↔ t.Lists (ofText text) f ∧ hasDocumentEnding f := by
    rw [hone text found hfound, or_iff_right, and_iff_right hd]
    -- a directory is not the file
    rintro ⟨rfl, -⟩
    rw [hentry] at hd
    exact hdirectory (Option.some.inj (Except.ok.inj hd))
  refine ⟨?_, fun hlists => ?_, fun hlists h => hlists (hsearched.mp h).1⟩
  · rw [search_singleton, hread, documentsAt_of_isFileAt hf]
    split <;> simp [Except.map, sorted, List.eraseDups_cons]
  · rw [hsearched, and_iff_right hlists]
    exact hasDocumentEnding_iff_hasDocumentSuffix

/-- A directory with a document that is found in both ways, two that are found in one only, and a
directory that is not open to everyone. -/
def drawer : FileTree where
  entries := [(["d"], .directory), (["d", "a.yaml"], .file []), (["d", "B.YAML"], .file []),
    (["d", ".yml"], .file []), (["d", "p"], .directory), (["d", "p", "c.yaml"], .file [])]
  unlisted := [(⟨"", ["d", "p"]⟩, ⟨"Permission denied", true⟩)]

lemma isWellFormed_drawer : drawer.IsWellFormed where
  names := by decide +kernel
  parents := by decide +kernel

theorem search_by_name_and_directory_drawer :
    drawer.search ["d"] = .ok [⟨"", ["d", ".yml"]⟩, ⟨"", ["d", "a.yaml"]⟩]
    ∧ drawer.search ["d/a.yaml"] = .ok [⟨"", ["d", "a.yaml"]⟩]
    ∧ drawer.search ["d/B.YAML"] = .ok [⟨"", ["d", "B.YAML"]⟩]
    ∧ drawer.search ["d/.yml"] = .ok []
    ∧ drawer.search ["d/p/c.yaml"] = .ok [⟨"", ["d", "p", "c.yaml"]⟩] := by
  obtain ⟨-, -, -, -, hways⟩ :=
    search_by_name_and_directory drawer isWellFormed_drawer []
  have hd : drawer.lookup (ofText "d") = .ok (some .directory) := by decide +kernel
  have hhere : (drawer.documentsAt (ofText "d")).documents
      = .ok [⟨"", ["d", "a.yaml"]⟩, ⟨"", ["d", ".yml"]⟩] := by decide +kernel
  have hfound : drawer.search ["d"] = .ok [⟨"", ["d", ".yml"]⟩, ⟨"", ["d", "a.yaml"]⟩] := by
    rw [search_singleton, hhere]
    refine congrArg Except.ok (sorted_eq_of_mem_iff ?_ ?_ ?_)
    · rintro p hp
      rw [List.mem_pair] at hp
      rcases hp with rfl | rfl <;> exact ⟨.inl rfl, by decide +kernel⟩
    · decide +kernel
    · simp [or_comm]
  have hway := fun names (hne : names ≠ []) (hup : ".." ∉ names) =>
    hways "d" _ ⟨"", "d" :: names⟩ hd hfound ⟨names, hne, hup, rfl⟩
  refine ⟨hfound, ?_, ?_, ?_, ?_⟩
  · exact (hway ["a.yaml"] (by decide) (by decide) (by decide +kernel)).1
  · exact (hway ["B.YAML"] (by decide) (by decide) (by decide +kernel)).1
  · exact (hway [".yml"] (by decide) (by decide) (by decide +kernel)).1
  · exact (hway ["p", "c.yaml"] (by decide) (by decide) (by decide +kernel)).1

/-- A directory in a directory, named like a document. -/
def lookalike : FileTree where
  entries := [(["d"], .directory), (["d", "x.yaml"], .directory)]

/-- A search finds directories that are named like documents. -/
theorem search_finds_directory :
    lookalike.IsWellFormed ∧ lookalike.search ["d"] = .ok [⟨"", ["d", "x.yaml"]⟩]
    ∧ lookalike.isFileAt ⟨"", ["d", "x.yaml"]⟩ = false := by
  refine ⟨⟨?_, ?_⟩, ?_, ?_⟩ <;> decide +kernel

end FileTree

end ApiLint
