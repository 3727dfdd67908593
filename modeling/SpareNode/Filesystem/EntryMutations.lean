import SpareNode.Filesystem.RequestNames
import SpareNode.Filesystem.UploadFinalizer

/-! # Creating and removing entries

`create_directory` and `remove_filesystem_entry` of the Linux build. A directory is created at
the safe path of the request. A removal checks the safe path too, but takes the entry from the
request's own normalised names, so that a final link goes instead of its target. What each
operation changes lies in the canonical directory that the names before the last lead to.
-/
namespace SpareNode.Filesystem
open LexicalPath FileTree Concurrency Storage

inductive DirectoryCreationErrorCode where
  | invalidDestination | parentUnavailable | destinationExists | permissionDenied | creationFailed
  | resourceFailure
deriving DecidableEq, Repr

structure DirectoryCreationError where
  code : DirectoryCreationErrorCode
  pathError : Option SafePathError
  systemError : Option Errno
deriving DecidableEq, Repr

def creationFailure (error : Errno) : DirectoryCreationError :=
  match error with
  | .alreadyExists => ⟨.destinationExists,none,some error⟩
  | .noEntry | .notDirectory => ⟨.parentUnavailable,none,some error⟩
  | .accessDenied | .notPermitted | .readOnlySystem => ⟨.permissionDenied,none,some error⟩
  | _ => ⟨.creationFailed,none,some error⟩

def createConfinedDirectory (refused : Option Errno) (nativeName : Name)
    (entries : DirectoryEntries Kind) : Except DirectoryCreationError Unit × DirectoryEntries Kind :=
  if !isFilename nativeName then (.error ⟨.invalidDestination,none,none⟩,entries)
  else
    match entries.create refused nativeName .directory with
    | .error error => (.error (creationFailure error),entries)
    | .ok created => (.ok (),created)

/-- The path that is returned is a copy, for which the memory can be exhausted. -/
def createDirectory (fs : Tree) (sharedRoot : SharedRoot) (requestedPath : Bytes)
    (refused : Option Errno) (exhausted : Bool) : Except DirectoryCreationError Path × List Mutation :=
  match SafePath.resolve fs sharedRoot requestedPath with
  | .error e => (.error ⟨.invalidDestination,some e,none⟩,[])
  | .ok destination =>
    let path := destination.path
    if invalidDestination sharedRoot path then (.error ⟨.invalidDestination,none,none⟩,[])
    else
      match openConfinedDirectory fs sharedRoot.path path.parentPath with
      | .error e => (.error ⟨.parentUnavailable,none,some e⟩,[])
      | .ok parent =>
        match createConfinedDirectory refused path.filename (DirectoryHandle.entries parent.directory) with
        | (.error e,entries) => (.error e,mutationsOf parent.directory entries)
        | (.ok (),entries) =>
          (if exhausted then .error ⟨.resourceFailure,none,none⟩ else .ok path,mutationsOf parent.directory entries)

inductive FilesystemEntryRemovalErrorCode where
  | invalidDestination | parentUnavailable | notFound | directoryNotEmpty | permissionDenied
  | removalFailed | resourceFailure
deriving DecidableEq, Repr

structure FilesystemEntryRemovalError where
  code : FilesystemEntryRemovalErrorCode
  pathError : Option SafePathError
  systemError : Option Errno
deriving DecidableEq, Repr

def removalFailure (error : Errno) : FilesystemEntryRemovalError :=
  match error with
  | .noEntry | .notDirectory => ⟨.notFound,none,some error⟩
  | .notEmpty | .alreadyExists => ⟨.directoryNotEmpty,none,some error⟩
  | .accessDenied | .notPermitted | .readOnlySystem => ⟨.permissionDenied,none,some error⟩
  | _ => ⟨.removalFailed,none,some error⟩

/-- The answers of the system to one removal; a directory that is not empty is refused by the
last of them. -/
structure RemovalAnswers where
  landlockRefused : Option Errno
  unlinkRefused : Option Errno
  directoryRefused : Option Errno

/-- `unlinkat` without flags, which refuses a directory. -/
def unlink (refused : Option Errno) (name : Name) (entries : DirectoryEntries Kind) :
    Except Errno (DirectoryEntries Kind) :=
  match refused,entries.entry name with
  | some error,_ => .error error
  | none,none => .error .noEntry
  | none,some .directory => .error .isDirectory
  | none,some _ => .ok (entries.erase name)

/-- `unlinkat` with `AT_REMOVEDIR`. -/
def unlinkDirectory (refused : Option Errno) (name : Name) (entries : DirectoryEntries Kind) :
    Except Errno (DirectoryEntries Kind) :=
  match refused,entries.entry name with
  | some error,_ => .error error
  | none,none => .error .noEntry
  | none,some .directory => .ok (entries.erase name)
  | none,some _ => .error .notDirectory

def removeConfinedEntry (answers : RemovalAnswers) (nativeName : Name)
    (entries : DirectoryEntries Kind) :
    Except FilesystemEntryRemovalError Unit × DirectoryEntries Kind :=
  if !isFilename nativeName then (.error ⟨.invalidDestination,none,none⟩,entries)
  else
    match answers.landlockRefused with
    | some error => (.error ⟨.removalFailed,none,some error⟩,entries)
    | none =>
      match unlink answers.unlinkRefused nativeName entries with
      | .ok removed => (.ok (),removed)
      | .error .isDirectory =>
        match unlinkDirectory answers.directoryRefused nativeName entries with
        | .ok removed => (.ok (),removed)
        | .error error => (.error (removalFailure error),entries)
      | .error error => (.error (removalFailure error),entries)

/-- The request's own path, with a final link left as it is. -/
def lexicalDestination (sharedRoot : SharedRoot) (requestedPath : Bytes) : Path :=
  match decodePathRequest requestedPath with
  | .error _ => Path.ofText []
  | .ok text => normalizedCandidate sharedRoot text

def removeFilesystemEntry (fs : Tree) (sharedRoot : SharedRoot) (requestedPath : Bytes)
    (answers : RemovalAnswers) : Except FilesystemEntryRemovalError Unit × List Mutation :=
  match SafePath.resolve fs sharedRoot requestedPath with
  | .error e => (.error ⟨.invalidDestination,some e,none⟩,[])
  | .ok _ =>
    let path := lexicalDestination sharedRoot requestedPath
    if path.isEmpty || invalidDestination sharedRoot path then (.error ⟨.invalidDestination,none,none⟩,[])
    else
      match openConfinedMutationDirectory fs sharedRoot.path path.parentPath with
      | .error e => (.error ⟨.parentUnavailable,none,some e⟩,[])
      | .ok parent =>
        match removeConfinedEntry answers path.filename (DirectoryHandle.entries parent.directory) with
        | (.error e,entries) => (.error e,mutationsOf parent.directory entries)
        | (.ok (),entries) => (.ok (),mutationsOf parent.directory entries)

variable {fs : Tree} {root : SharedRoot} {request text : Bytes} {safe : SafePath} {path : Path}
variable {met missing E D ds ns : List Name} {n : Name} {m : Mutation}

theorem mem_mutationsOf {handle : DirectoryHandle fs} {entries : DirectoryEntries Kind} :
    m ∈ mutationsOf handle entries ↔ m.directory = handle.names ∧ m.change ∈ entries.changes := by
  unfold mutationsOf
  rw [List.mem_map]
  constructor
  · rintro ⟨change,hchange,rfl⟩
    exact ⟨rfl,hchange⟩
  · rintro ⟨hdirectory,hchange⟩
    exact ⟨m.change,hchange,by rw [← hdirectory]⟩

/-- A valid destination is an entry of the directory of its other names. -/
theorem destination_cases (hrooted : path.rooted = true) (hnames : path.names = ns)
    (hproper : ∀ x ∈ ns, ProperName x) (h : invalidDestination root path = false) :
    ns = path.dirs ++ [path.filename] ∧ path.parentPath = Path.absolute path.dirs := by
  have hfilename : path.filename ≠ [] := by
    intro hnil
    simp [invalidDestination,hnil] at h
  have hsplit : ns = path.dirs ++ [path.filename] := by
    rw [← hnames,Path.names,if_neg (by simpa using hfilename)]
  refine ⟨hsplit,Path.parentPath_eq_absolute hrooted rfl (fun x hx => hproper x ?_)⟩
  rw [hsplit]
  exact List.mem_append_left _ hx

/-- The directory that holds a safe path is reached without links. -/
theorem Located.parent (h : Located fs root text safe met missing E) (hsplit : E ++ missing = ds ++ [n])
    (hlocate : locate fs ds = .ok D) : D = ds := by
  have hcanonical : Canonical fs.kind ds := by
    cases missing using List.reverseRecOn with
    | nil =>
      rw [List.append_nil] at hsplit
      have hE := h.canonical
      rw [hsplit] at hE
      exact hE.init
    | append_singleton missing m =>
      rw [← List.append_assoc] at hsplit
      obtain ⟨rfl,-⟩ := List.append_inj' hsplit rfl
      cases missing with
      | nil => simpa using h.canonical
      | cons x missing =>
        -- a missing directory cannot be opened
        obtain ⟨hdir,hkind⟩ := h.absent x (missing ++ [m]) rfl
        rw [locate_missing hdir h.canonical (h.proper x (by simp)) hkind] at hlocate
        cases hlocate
  rw [locate_of_canonical hcanonical] at hlocate
  exact (Except.ok.inj hlocate).symm

/-- The opened parent of a safe path and the filename are the safe path again. -/
theorem destination_opened {parent : ConfinedDirectory fs} (h : SafePath.resolve fs root request = .ok safe)
    (hvalid : invalidDestination root safe.path = false)
    (hopen : openConfinedDirectory fs root.path safe.path.parentPath = .ok parent) :
    safe.path.names = parent.directory.names ++ [safe.path.filename] ∧
      root.names <+: parent.directory.names := by
  obtain ⟨text,met,missing,E,-,-,hlocated⟩ := resolve_located h
  have hrooted : safe.path.rooted = true := by
    rw [hlocated.path]
    exact (Path.absolute_spec hlocated.pathProper).1
  obtain ⟨hsplit,hparent⟩ := destination_cases hrooted hlocated.pathNames hlocated.pathProper hvalid
  rw [hparent] at hopen
  have hdirs : ∀ x ∈ safe.path.dirs, ProperName x := by
    intro x hx
    apply hlocated.pathProper x
    rw [hsplit]
    exact List.mem_append_left _ hx
  obtain ⟨hroot,hlocate⟩ := openConfinedDirectory_spec hdirs hopen
  have hwithin := parent.within
  rw [hroot] at hwithin
  refine ⟨?_,hwithin⟩
  rw [hlocated.parent hsplit hlocate,hlocated.pathNames,hsplit]

/-- What `finalize_upload` changes: a reserved name beside the destination, or the destination. -/
theorem finalizeUpload_mutations {source : TemporaryFile} {deadline : Option ℤ} {atEntry : Moment}
    {answers : PublicationAnswers} {exhausted : Bool}
    (h : m ∈ (finalizeUpload fs root request source deadline atEntry answers exhausted).2) :
    ∃ safe, SafePath.resolve fs root request = .ok safe ∧ Canonical fs.kind m.directory ∧
      (safe.path.names = m.names ∨
        isUploadStageComponent m.change.name = true ∧ safe.path.names.dropLast = m.directory ∧
          root.names <+: m.directory) := by
  unfold finalizeUpload at h
  split at h
  · simp at h
  · split at h
    · simp at h
    · split at h
      · simp at h
      · rename_i safe hsafe
        dsimp only at h
        split at h
        · simp at h
        · rename_i hvalid
          split at h
          · simp at h
          · rename_i parent hopen
            obtain ⟨hnames,hwithin⟩ := destination_opened hsafe (by simpa using hvalid) hopen
            have hmutation : ∃ entries result, publishConfinedUpload (fun _ => Kind.regular) answers source
                safe.path.filename deadline (DirectoryHandle.entries parent.directory) = (result,entries) ∧
                m ∈ mutationsOf parent.directory entries := by
              split at h
              · rename_i e entries hpublish
                exact ⟨entries,_,hpublish,h⟩
              · rename_i entries hpublish
                exact ⟨entries,_,hpublish,h⟩
            obtain ⟨entries,result,hpublish,hm⟩ := hmutation
            obtain ⟨hdirectory,hchange⟩ := mem_mutationsOf.mp hm
            have hcanonical := parent.directory.canonical
            rw [← hdirectory] at hcanonical hnames hwithin
            refine ⟨safe,hsafe,hcanonical,?_⟩
            rcases publishConfinedUpload_changes rfl hpublish m.change hchange with hreserved | hname
            · exact Or.inr ⟨hreserved,by rw [hnames,List.dropLast_concat],hwithin⟩
            · exact Or.inl (by rw [hnames,Mutation.names,hname,EntryChange.name])

/-- What `create_directory` changes: the safe path of the request. -/
theorem createDirectory_mutations {refused : Option Errno} {exhausted : Bool}
    (h : m ∈ (createDirectory fs root request refused exhausted).2) :
    ∃ safe, SafePath.resolve fs root request = .ok safe ∧ Canonical fs.kind m.directory ∧
      safe.path.names = m.names := by
  unfold createDirectory at h
  split at h
  · simp at h
  · rename_i safe hsafe
    dsimp only at h
    split at h
    · simp at h
    · rename_i hvalid
      split at h
      · simp at h
      · rename_i parent hopen
        obtain ⟨hnames,-⟩ := destination_opened hsafe (by simpa using hvalid) hopen
        have hmutation : m ∈ mutationsOf parent.directory (createConfinedDirectory refused
            safe.path.filename (DirectoryHandle.entries parent.directory)).2 := by
          split at h
          · rename_i e entries hcreate
            rwa [hcreate]
          · rename_i entries hcreate
            rwa [hcreate]
        obtain ⟨hdirectory,hchange⟩ := mem_mutationsOf.mp hmutation
        have hcanonical := parent.directory.canonical
        rw [← hdirectory] at hcanonical hnames
        have hcreated : m.change = .created safe.path.filename := by
          unfold createConfinedDirectory at hchange
          split at hchange
          · simp [DirectoryHandle.entries] at hchange
          · split at hchange
            · simp [DirectoryHandle.entries] at hchange
            · rename_i created hcreate
              rw [create_changes hcreate] at hchange
              simpa [DirectoryHandle.entries] using hchange
        exact ⟨safe,hsafe,hcanonical,by rw [hnames,Mutation.names,hcreated,EntryChange.name]⟩

theorem unlink_ok {refused : Option Errno} {entries entries' : DirectoryEntries Kind}
    (h : unlink refused n entries = .ok entries') : entries.entry n ≠ none ∧ entries' = entries.erase n := by
  unfold unlink at h
  split at h
  · cases h
  · cases h
  · cases h
  · rename_i hentry
    cases h
    exact ⟨by simp [hentry],rfl⟩

theorem unlinkDirectory_ok {refused : Option Errno} {entries entries' : DirectoryEntries Kind}
    (h : unlinkDirectory refused n entries = .ok entries') :
    entries.entry n ≠ none ∧ entries' = entries.erase n := by
  unfold unlinkDirectory at h
  split at h
  · cases h
  · cases h
  · rename_i hentry
    cases h
    exact ⟨by simp [hentry],rfl⟩
  · cases h

/-- A removal unlinks an entry that exists, and nothing else. -/
theorem removeConfinedEntry_changes {answers : RemovalAnswers} {entries : DirectoryEntries Kind}
    (hnone : entries.changes = []) {change : EntryChange}
    (h : change ∈ (removeConfinedEntry answers n entries).2.changes) :
    change = .unlinked n ∧ entries.entry n ≠ none := by
  have hunchanged : change ∉ entries.changes := by simp [hnone]
  have herased : change ∈ (entries.erase n).changes → change = .unlinked n := by
    simp [DirectoryEntries.erase,hnone]
  unfold removeConfinedEntry at h
  split at h
  · exact absurd h hunchanged
  · split at h
    · exact absurd h hunchanged
    · split at h
      · rename_i removed hunlink
        obtain ⟨hentry,rfl⟩ := unlink_ok hunlink
        exact ⟨herased h,hentry⟩
      · split at h
        · rename_i removed hunlink
          obtain ⟨hentry,rfl⟩ := unlinkDirectory_ok hunlink
          exact ⟨herased h,hentry⟩
        · exact absurd h hunchanged
      · exact absurd h hunchanged

/-- What `remove_filesystem_entry` changes: the entry of the request's last name in the directory
that the names before it lead to, which is the safe path unless a link stands there. -/
theorem removeFilesystemEntry_mutations {answers : RemovalAnswers}
    (h : m ∈ (removeFilesystemEntry fs root request answers).2) :
    ∃ safe, SafePath.resolve fs root request = .ok safe ∧ Canonical fs.kind m.directory ∧
      locate fs (lexicalDestination root request).dirs = .ok m.directory ∧
      ((∀ target, fs.kind m.names ≠ some (.symlink target)) → safe.path.names = m.names) := by
  unfold removeFilesystemEntry at h
  split at h
  · simp at h
  · rename_i safe hsafe
    dsimp only at h
    split at h
    · simp at h
    · rename_i hvalid
      split at h
      · simp at h
      · rename_i parent hopen
        obtain ⟨text,met,missing,E,htext,hplain,hlocated⟩ := resolve_located hsafe
        have hpath : lexicalDestination root request = normalizedCandidate root text := by
          rw [lexicalDestination,htext]
        rw [hpath] at h hvalid hopen
        have hvalid : invalidDestination root (normalizedCandidate root text) = false := by
          simp only [Bool.or_eq_true,not_or,Bool.not_eq_true] at hvalid
          exact hvalid.2
        obtain ⟨hrooted,-⟩ := normalizedCandidate_rooted root hplain.relative
        obtain ⟨hsplit,hparent⟩ := destination_cases hrooted hlocated.names hlocated.requestedProper hvalid
        rw [hparent] at hopen
        have hproper : ∀ x ∈ (normalizedCandidate root text).dirs ++
            [(normalizedCandidate root text).filename], ProperName x := by
          rw [← hsplit]
          exact hlocated.requestedProper
        obtain ⟨-,hlocate⟩ := openConfinedDirectory_spec
          (fun x hx => hproper x (List.mem_append_left _ hx)) hopen
        have hmutation : m ∈ mutationsOf parent.directory (removeConfinedEntry answers
            (normalizedCandidate root text).filename (DirectoryHandle.entries parent.directory)).2 := by
          split at h
          · rename_i e entries hremove
            rwa [hremove]
          · rename_i entries hremove
            rwa [hremove]
        obtain ⟨hdirectory,hchange⟩ := mem_mutationsOf.mp hmutation
        obtain ⟨hname,hexists⟩ := removeConfinedEntry_changes rfl hchange
        have hcanonical := parent.directory.canonical
        have hdir := parent.directory.directory
        have hnames : m.names = parent.directory.names ++ [(normalizedCandidate root text).filename] := by
          rw [Mutation.names,hdirectory,hname,EntryChange.name]
        refine ⟨safe,hsafe,hdirectory ▸ hcanonical,by rw [hpath,hdirectory,hlocate],?_⟩
        intro hlink
        rw [hnames] at hlink ⊢
        cases hkind : fs.kind (parent.directory.names ++ [(normalizedCandidate root text).filename]) with
        | none => exact absurd hkind hexists
        | some kind =>
          -- the names lead to the entry itself, and the request resolves to what they lead to
          have hstep := step_object (f := follow fs fs.linkDepth) hdir (hproper _ (by simp)) hkind
            (fun target heq => hlink target (by rw [hkind,heq]))
          have hreached : locate fs (root.names ++ (met ++ missing)) =
              .ok (parent.directory.names ++ [(normalizedCandidate root text).filename]) := by
            rw [hsplit,locate_snoc hlocate]
            exact hstep
          obtain ⟨hnil,hE⟩ := hlocated.of_exists hreached
          rw [hlocated.pathNames,hnil,List.append_nil,hE]

end SpareNode.Filesystem
