import SpareNode.Filesystem.RequestNames

/-! # Listed names

What a client gets when it asks for a listed name: the request for the directory, joined with
the encoded name. A name without backslashes follows the names of the directory's request, so
the request denotes the listed entry. A name with a backslash comes back as several names, and
no request denotes the entry.
-/
namespace SpareNode.Filesystem
open LexicalPath FileTree

variable {fs : Tree}

/-- A request denotes an entry of a directory: its last name is looked up in the directory that
the names before it lead to, and its safe path is that of the object found there, which is the
entry itself unless the entry is a link. -/
structure DenotesEntry (fs : Tree) (root : SharedRoot) (request : Bytes) (directory : List Name)
    (n : Name) : Prop where
  entry : ∃ text names, decodePathRequest request = .ok text ∧
    (normalizedCandidate root text).names = root.names ++ (names ++ [n]) ∧
    locate fs (root.names ++ names) = .ok directory
  object : ∃ safe target, SafePath.resolve fs root request = .ok safe ∧
    safe.path = Path.absolute target ∧ locate fs (directory ++ [n]) = .ok target ∧
    root.names <+: target ∧
    ∀ kind, fs.kind (directory ++ [n]) = some kind → (∀ link, kind ≠ .symlink link) →
      target = directory ++ [n]

def nameRequest (request : Bytes) (n : Name) : Bytes := childRequest request (encodePathComponent n)

variable {host : DirectoryHost fs} {root : SharedRoot} {request : Bytes} {directory : List Name}
variable {entries : List DirectoryListingEntry} {n : Name}

/-- Every entry is addressed by its name, and the names are sorted strictly. -/
structure FaithfulListing (host : DirectoryHost fs) (root : SharedRoot) (request : Bytes)
    (directory : List Name) (entries : List DirectoryListingEntry) : Prop where
  addressed : ∀ entry ∈ entries, DenotesEntry fs root (nameRequest request entry.name) directory entry.name
  omitted : ∀ n ∈ (host.iterate directory).order,
    ¬DenotesEntry fs root (nameRequest request n) directory n → ∀ entry ∈ entries, entry.name ≠ n
  increasing : entries.Pairwise (fun left right => left.name < right.name)

/-- The metadata of an entry can be read inside the root. -/
def MetadataRead (host : DirectoryHost fs) (root : SharedRoot) (directory : List Name) (n : Name) : Prop :=
  ∃ confined metadata, openConfinedDirectory fs root.path (Path.absolute directory) = .ok confined ∧
    readConfinedDirectoryEntry host.attributes confined n = some metadata

/-- Each entry with a backslash in its name fails one of the two checks. -/
def BackslashesOmitted (host : DirectoryHost fs) (root : SharedRoot) (request : Bytes)
    (directory : List Name) : Prop :=
  ∀ n ∈ (host.iterate directory).order, char '\\' ∈ n →
    (∃ e, SafePath.resolve fs root (nameRequest request n) = .error e) ∨ ¬MetadataRead host root directory n

structure Listed (host : DirectoryHost fs) (root : SharedRoot) (request : Bytes) (directory : List Name)
    (confined : ConfinedDirectory fs) (entries : List DirectoryListingEntry) : Prop where
  resolved : SafePath.resolve fs root request = .ok ⟨Path.absolute directory⟩
  opened : openConfinedDirectory fs root.path (Path.absolute directory) = .ok confined
  handle : confined.directory.names = directory
  root_eq : confined.root.names = root.names
  failure : (host.iterate directory).failure = none
  entries_eq : entries =
    sortEntries ((host.iterate directory).order.filterMap (readEntry host root request confined))

theorem listDirectory_listed (h : listDirectory host root request = .ok entries) :
    ∃ directory confined, Listed host root request directory confined entries := by
  unfold listDirectory resolveDirectory at h
  cases hsafe : SafePath.resolve fs root request with
  | error e =>
    rw [hsafe] at h
    cases h
  | ok safe =>
    rw [hsafe] at h
    obtain ⟨text,met,missing,E,htext,-,hlocated⟩ := resolve_located hsafe
    have hresolve : resolve fs safe.path = locate fs (E ++ missing) := by
      rw [hlocated.path,resolve_absolute hlocated.pathProper]
    dsimp only at h
    by_cases hmissing : missing = []
    · have hpath : safe.path = Path.absolute E := by rw [hlocated.path,hmissing,List.append_nil]
      rw [hmissing,List.append_nil,locate_of_canonical hlocated.canonical] at hresolve
      rw [hresolve] at h
      dsimp only at h
      cases hkind : fs.kind E with
      | none =>
        rw [hkind] at h
        cases h
      | some kind =>
        rw [hkind] at h
        cases kind with
        | regular => cases h
        | symlink target => cases h
        | directory =>
          dsimp only at h
          unfold collectEntries at h
          cases hconfined : openConfinedDirectory fs root.path safe.path with
          | error e =>
            rw [hconfined] at h
            cases h
          | ok confined =>
            rw [hconfined,hresolve] at h
            dsimp only at h
            split at h
            · cases h
            · rename_i kept hloop
              cases h
              obtain ⟨hfailure,hkept⟩ := collectLoop_eq_ok hloop
              rw [hpath] at hconfined
              obtain ⟨hroot,hlocate⟩ := openConfinedDirectory_spec hlocated.canonical.proper hconfined
              have hnames : confined.directory.names = E := by
                rw [locate_of_canonical hlocated.canonical] at hlocate
                exact (Except.ok.inj hlocate).symm
              refine ⟨E,confined,by rw [hsafe,← hpath],hconfined,hnames,hroot,hfailure,?_⟩
              rw [hkept,List.nil_append]
    · rw [hresolve,hlocated.missing_error hmissing] at h
      cases h

theorem Listed.mem_iff {confined : ConfinedDirectory fs} {entry : DirectoryListingEntry}
    (h : Listed host root request directory confined entries) : entry ∈ entries ↔
      ∃ n ∈ (host.iterate directory).order, readEntry host root request confined n = some entry := by
  rw [h.entries_eq,mem_sortEntries,List.mem_filterMap]

/-- A listed name is valid UTF-8, since its request is. -/
theorem listDirectory_valid (h : listDirectory host root request = .ok entries) :
    ∀ entry ∈ entries, Utf8.isValid entry.name = true := by
  obtain ⟨directory,confined,hlisted⟩ := listDirectory_listed h
  intro entry hentry
  obtain ⟨n,-,hread⟩ := hlisted.mem_iff.mp hentry
  obtain ⟨safe,stable,hsafe,-,rfl⟩ := readEntry_eq_some_iff.mp hread
  obtain ⟨text,-,-,-,htext,-,-⟩ := resolve_located hlisted.resolved
  obtain ⟨text',-,-,-,htext',hplain,-⟩ := resolve_located hsafe
  exact childRequest_valid htext htext' hplain.utf8

/-- A listed name without backslashes is the name of an entry that its request denotes. -/
theorem Listed.denotes {confined : ConfinedDirectory fs} {entry : DirectoryListingEntry}
    (h : Listed host root request directory confined entries)
    (hn : n ∈ (host.iterate directory).order) (hplain : char '\\' ∉ n)
    (hread : readEntry host root request confined n = some entry) :
    DenotesEntry fs root (nameRequest request n) directory n := by
  have hproper := ((host.iterate directory).entries n hn).1
  obtain ⟨safe,stable,hsafe,hstable,-⟩ := readEntry_eq_some_iff.mp hread
  obtain ⟨link,target,-,htarget,hwithin⟩ := readConfinedDirectoryEntry_spec hproper hstable
  rw [h.handle] at htarget
  rw [h.root_eq] at hwithin
  obtain ⟨text,met,missing,E,htext,htextPlain,hlocated⟩ := resolve_located h.resolved
  obtain ⟨text',met',missing',E',htext',htextPlain',hlocated'⟩ := resolve_located hsafe
  -- the directory exists, so its request leads to it without missing names
  have hdirectory : directory = E ∧ missing = [] := by
    have hpath := congrArg Path.names hlocated.path
    have hcanonical := confined.directory.canonical
    rw [h.handle] at hcanonical
    rw [(Path.absolute_spec hcanonical.proper).2.1,(Path.absolute_spec hlocated.pathProper).2.1] at hpath
    by_cases hmissing : missing = []
    · rw [hmissing,List.append_nil] at hpath
      exact ⟨hpath,hmissing⟩
    · have hlocate := hlocated.missing_error hmissing
      rw [← hpath,locate_of_canonical hcanonical] at hlocate
      cases hlocate
  obtain ⟨rfl,rfl⟩ := hdirectory
  have hnames := child_candidate_names root hproper hplain htext htextPlain.relative htext'
    htextPlain'.relative
  have hrequested := hlocated.names
  rw [List.append_nil] at hrequested
  rw [hrequested,List.append_assoc] at hnames
  have hcs : met' ++ missing' = met ++ [n] := by
    have := hlocated'.names.symm.trans hnames
    rwa [List.append_cancel_left_eq] at this
  have hexists : locate fs (root.names ++ (met' ++ missing')) = .ok target := by
    rw [hcs,← List.append_assoc,locate_through hlocated.canonical hlocated.located]
    exact htarget
  obtain ⟨hnil,rfl⟩ := hlocated'.of_exists hexists
  refine ⟨⟨text',met,htext',hnames,hlocated.located⟩,safe,E',hsafe,?_,htarget,hwithin,?_⟩
  · rw [hlocated'.path,hnil,List.append_nil]
  · intro kind hkind hlink
    have hdir := confined.directory.directory
    rw [h.handle] at hdir
    rw [locate_snoc (locate_of_canonical hlocated.canonical),step_object hdir hproper hkind hlink] at htarget
    exact (Except.ok.inj htarget).symm

/-- No request denotes an entry with a backslash in its name. -/
theorem DenotesEntry.plain (h : DenotesEntry fs root request directory n) : char '\\' ∉ n := by
  obtain ⟨text,names,htext,hnames,-⟩ := h.entry
  obtain ⟨safe,-,hsafe,-⟩ := h.object
  obtain ⟨text',-,-,-,htext',hplain,-⟩ := resolve_located hsafe
  obtain rfl : text = text' := Except.ok.inj (htext.symm.trans htext')
  exact normalizedCandidate_plain htext hplain.relative hnames n (by simp)

/-- A listing is faithful exactly when the entries with a backslash in their names are omitted. -/
theorem listing_faithful_iff (host : DirectoryHost fs) (root : SharedRoot) (request : Bytes)
    (entries : List DirectoryListingEntry) (h : listDirectory host root request = .ok entries) :
    ∃ directory, SafePath.resolve fs root request = .ok ⟨Path.absolute directory⟩ ∧
      (FaithfulListing host root request directory entries ↔
        BackslashesOmitted host root request directory) := by
  obtain ⟨directory,confined,hlisted⟩ := listDirectory_listed h
  refine ⟨directory,hlisted.resolved,?_,?_⟩
  · intro hfaithful n hn hbackslash
    by_contra hpasses
    rw [not_or,not_not] at hpasses
    obtain ⟨hsafe,confined',stable,hopened,hstable⟩ := hpasses
    obtain rfl : confined = confined' := Except.ok.inj (hlisted.opened.symm.trans hopened)
    cases hresolve : SafePath.resolve fs root (nameRequest request n) with
    | error e => exact hsafe ⟨e,hresolve⟩
    | ok safe =>
      have hread := readEntry_eq_some_iff.mpr ⟨safe,stable,hresolve,hstable,rfl⟩
      exact (hfaithful.addressed _ (hlisted.mem_iff.mpr ⟨n,hn,hread⟩)).plain hbackslash
  · intro homitted
    have haddressed : ∀ entry ∈ entries,
        DenotesEntry fs root (nameRequest request entry.name) directory entry.name := by
      intro entry hentry
      obtain ⟨n,hn,hread⟩ := hlisted.mem_iff.mp hentry
      rw [readEntry_name hread]
      refine hlisted.denotes hn ?_ hread
      intro hbackslash
      obtain ⟨safe,stable,hsafe,hstable,-⟩ := readEntry_eq_some_iff.mp hread
      rcases homitted n hn hbackslash with ⟨e,he⟩ | hunread
      · rw [nameRequest,hsafe] at he
        cases he
      · exact hunread ⟨confined,stable,hlisted.opened,hstable⟩
    refine ⟨haddressed,?_,?_⟩
    · rintro n - hdenotes entry hentry rfl
      exact hdenotes (haddressed entry hentry)
    · rw [hlisted.entries_eq]
      exact sortEntries_increasing (readEntry_nodup (host.iterate directory).nodup)

/-- A root that holds one file, with a backslash in its name. -/
def backslashTree : Tree where
  kind ns :=
    if ns = [] ∨ ns = [ascii "srv"] then some .directory
    else if ns = [ascii "srv",ascii "a\\b"] then some .regular
    else none
  root := if_pos (Or.inl rfl)
  workingDirectory := []
  working := canonical_nil (if_pos (Or.inl rfl))
  linkDepth := 40

theorem srv_proper : ProperName (ascii "srv") :=
  ⟨by decide +kernel,by decide +kernel,by decide +kernel,by decide +kernel⟩

theorem backslash_proper : ProperName (ascii "a\\b") :=
  ⟨by decide +kernel,by decide +kernel,by decide +kernel,by decide +kernel⟩

def backslashOrder (directory : List Name) : List Name :=
  if directory = [] then [ascii "srv"] else if directory = [ascii "srv"] then [ascii "a\\b"] else []

theorem backslashOrder_nodup (directory : List Name) : (backslashOrder directory).Nodup := by
  unfold backslashOrder
  split
  · exact List.nodup_singleton _
  · split
    · exact List.nodup_singleton _
    · exact List.nodup_nil

theorem backslashOrder_entries (directory : List Name) : ∀ n ∈ backslashOrder directory,
    ProperName n ∧ backslashTree.kind (directory ++ [n]) ≠ none := by
  intro n hn
  unfold backslashOrder at hn
  split at hn
  · rename_i hroot
    rw [List.mem_singleton.mp hn,hroot]
    exact ⟨srv_proper,by decide +kernel⟩
  · split at hn
    · rename_i hsrv
      rw [List.mem_singleton.mp hn,hsrv]
      exact ⟨backslash_proper,by decide +kernel⟩
    · simp at hn

theorem backslashOrder_complete (directory : List Name) :
    ∀ n, backslashTree.kind (directory ++ [n]) ≠ none → n ∈ backslashOrder directory := by
  intro n hkind
  have hnames : directory ++ [n] = [] ++ [ascii "srv"] ∨ directory ++ [n] = [ascii "srv"] ++ [ascii "a\\b"] := by
    by_contra hne
    rw [not_or] at hne
    exact hkind (by simp [backslashTree,show ¬directory ++ [n] = [ascii "srv"] from hne.1,
      show ¬directory ++ [n] = [ascii "srv",ascii "a\\b"] from hne.2])
  rcases hnames with hnames | hnames
  · obtain ⟨rfl,hn⟩ := List.append_inj' hnames rfl
    simpa [backslashOrder] using hn
  · obtain ⟨rfl,hn⟩ := List.append_inj' hnames rfl
    simpa [backslashOrder] using hn

def backslashHost : DirectoryHost backslashTree where
  iterate directory :=
    { order := backslashOrder directory
      nodup := backslashOrder_nodup directory
      entries := backslashOrder_entries directory
      failure := none
      complete := fun _ n _ => backslashOrder_complete directory n }
  attributes _ := ⟨true,3,0⟩

theorem backslash_canonical : Canonical backslashTree.kind [ascii "srv"] :=
  canonical_root.snoc (by decide +kernel) srv_proper (k := .directory) (by decide +kernel) (by simp)

def backslashEntry : DirectoryListingEntry := ⟨ascii "a\\b",.regularFile,some 3,0⟩

theorem backslash_listing : listDirectory backslashHost linkedRoot [] = .ok [backslashEntry] := by
  have hresolved : resolveDirectory backslashTree linkedRoot [] = .ok ⟨Path.absolute [ascii "srv"]⟩ := by
    decide +kernel
  have hopened := @openConfinedDirectory_of_canonical backslashTree linkedRoot [ascii "srv"]
    backslash_canonical (by decide +kernel) backslash_canonical (by decide +kernel) (List.prefix_refl _)
  have hnames : resolve backslashTree (Path.absolute [ascii "srv"]) = .ok [ascii "srv"] := by decide +kernel
  have hloop : collectLoop backslashHost linkedRoot []
      ⟨⟨linkedRoot.names,backslash_canonical,by decide +kernel⟩,
        ⟨[ascii "srv"],backslash_canonical,by decide +kernel⟩,List.prefix_refl _⟩
      (backslashHost.iterate [ascii "srv"]).failure (backslashHost.iterate [ascii "srv"]).order 0 [] =
      .ok [backslashEntry] := by decide +kernel
  rw [listDirectory,hresolved]
  dsimp only
  rw [collectEntries,hopened]
  dsimp only
  rw [hnames]
  dsimp only
  rw [hloop]
  simp [sortEntries]

/-- The listed name leads to an entry that does not exist, not to the entry it was listed for. -/
theorem backslash_name_misaddressed :
    listDirectory backslashHost linkedRoot [] = .ok [⟨ascii "a\\b",.regularFile,some 3,0⟩] ∧
    SafePath.resolve backslashTree linkedRoot (nameRequest [] (ascii "a\\b")) =
      .ok ⟨Path.absolute [ascii "srv",ascii "a",ascii "b"]⟩ ∧
    backslashTree.kind [ascii "srv",ascii "a"] = none ∧
    ¬DenotesEntry backslashTree linkedRoot (nameRequest [] (ascii "a\\b")) [ascii "srv"] (ascii "a\\b") :=
  ⟨backslash_listing,by decide +kernel,by decide +kernel,fun h => h.plain (by decide +kernel)⟩

/-- The listing of a root that holds only such a name. -/
theorem listing_faithful_iff_backslash : ∃ directory,
    SafePath.resolve backslashTree linkedRoot [] = .ok ⟨Path.absolute directory⟩ ∧
      (FaithfulListing backslashHost linkedRoot [] directory [backslashEntry] ↔
        BackslashesOmitted backslashHost linkedRoot [] directory) :=
  listing_faithful_iff backslashHost linkedRoot [] [backslashEntry] backslash_listing

end SpareNode.Filesystem
