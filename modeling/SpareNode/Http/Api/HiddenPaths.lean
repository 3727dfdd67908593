import SpareNode.Http.Api.FilesystemHandlers

/-! # Paths that are hidden

A client that asks a location for what lies outside it, or for what cannot be resolved, is answered byte for byte
like one that asks for what does not exist. This holds of a read and of a removal, whatever has been asked for.
-/
namespace SpareNode.Http.Api
open LexicalPath FileTree Filesystem Storage Application Concurrency FilesystemResourceCoordinator

/-- A text that a path may have: short, relative once it is decoded, and without a reserved name. -/
structure Askable (request text : Bytes) : Prop where
  short : request.length ≤ maximumRequestedPathBytes
  decoded : decodePathRequest request = .ok text
  plain : PlainRequest request text
  unreserved : (Path.ofText text).lexicallyNormal.elements.any isUploadStageComponent = false

/-- Names that go out of their root or cannot be followed: they climb above it, a beginning of them leads out of it
through whatever links, or something stands at a beginning of them and leads nowhere. Without its root nothing can be
followed. -/
inductive Astray (fs : Tree) (root : SharedRoot) (names : List Name) : Prop where
  | climbs : ¬root.names <+: names → Astray fs root names
  | leaves (p existing : List Name) : p <+: names → root.names <+: p → locate fs p = .ok existing →
      ¬root.names <+: existing → Astray fs root names
  | stuck (p : List Name) (e : PathError) : p <+: names → root.names <+: p → locate fs p = .error e →
      symlinkStatus fs (Path.absolute p) ≠ .error .notFound → Astray fs root names
  | uprooted : ¬(Canonical fs.kind root.names ∧ fs.kind root.names = some .directory) → Astray fs root names

/-- A request for a path that leads out of the root or that cannot be followed. -/
def Hidden (fs : Tree) (root : SharedRoot) (request : Bytes) : Prop :=
  ∃ text, Askable request text ∧ Astray fs root (normalizedCandidate root text).names

/-- A request below the root for what is not there. -/
def Absent (fs : Tree) (root : SharedRoot) (request : Bytes) : Prop :=
  ∃ safe, SafePath.resolve fs root request = .ok safe ∧ FileTree.resolve fs safe.path = .error .notFound

/-- The coordinator refuses the request for nothing but its path. -/
def Coordinated (fs : Tree) (root : SharedRoot) (request : Bytes) (mode : FilesystemResourceAccessMode)
    (deadline : Option ℤ) (acquisition : AcquisitionAnswers) : Prop :=
  ∀ e, (acquire fs root request mode deadline acquisition).1 = .error e → e.code = .invalidPath

def notFoundResponse (date : Bytes) : HttpResponse := publicErrorResponse date (.notFound,"not_found")

variable {fs opened : Tree} {root : SharedRoot} {request : Bytes} {mode : FilesystemResourceAccessMode}
variable {deadline : Option ℤ} {acquisition : AcquisitionAnswers} {service : FilesystemService}

theorem symlinkStatus_located {ns E : List Name} {n : Name} (hns : ∀ x ∈ ns ++ [n], ProperName x)
    (h : locate fs (ns ++ [n]) = .ok E) : ∃ k, symlinkStatus fs (Path.absolute (ns ++ [n])) = .ok k := by
  have hn := hns n (by simp)
  cases hhere : locate fs ns with
  | error e =>
    rw [locate,walk_append] at h
    rw [locate] at hhere
    rw [hhere] at h
    cases h
  | ok here =>
    rw [locate_snoc hhere,step,if_neg (c := n = [] || n = dot) (by simp [hn.nonempty,hn.dot]),if_neg hn.dotDot] at h
    rw [symlinkStatus_absolute hns hhere,status,
      if_neg (c := n = [] || n = dot || n = dotDot) (by simp [hn.nonempty,hn.dot,hn.dotDot])]
    split at h
    · cases h
    · rename_i hdir
      rw [if_neg hdir]
      split at h
      · cases h
      · rename_i target hkind
        exact ⟨_,by rw [hkind]⟩
      · rename_i k hlink hkind
        exact ⟨k,by rw [hkind]⟩

theorem resolveExistingPath_hides {path : Path} {code : SafePathErrorCode}
    (h : resolveExistingPath fs path = .error code) : hidesPathDetail code = true := by
  unfold resolveExistingPath at h
  split at h
  · cases h
    rfl
  · cases h

theorem recheckRoot_hides {code : SafePathErrorCode} (h : recheckRoot fs root = .error code) :
    hidesPathDetail code = true := by
  unfold recheckRoot at h
  split at h
  · rename_i refused hrefused
    cases h
    exact resolveExistingPath_hides hrefused
  · split at h
    · cases h
      rfl
    · split at h
      · cases h
        rfl
      · cases h

/-- Whatever the loop meets, it tells as a path that leaves the root or that cannot be resolved. -/
theorem resolveComponents_hides {canonicalRoot resolved : Path} {components : List Name} {missingSuffix : Bool}
    {code : SafePathErrorCode}
    (h : resolveComponents fs canonicalRoot components resolved missingSuffix = .error code) :
    hidesPathDetail code = true := by
  induction components generalizing resolved missingSuffix with
  | nil => cases h
  | cons component rest ih =>
    rw [resolveComponents] at h
    split at h
    · exact ih h
    · split at h
      · cases h
        rfl
      · split at h
        · exact ih h
        · split at h
          · exact ih h
          · cases h
            rfl
          · split at h
            · rename_i refused hrefused
              cases h
              exact resolveExistingPath_hides hrefused
            · split at h
              · cases h
                rfl
              · exact ih h

theorem resolveExistingPrefixes_hides {candidate : Path} {code : SafePathErrorCode}
    (h : resolveExistingPrefixes fs candidate root = .error code) : hidesPathDetail code = true := by
  unfold resolveExistingPrefixes at h
  split at h
  · rename_i refused hrefused
    cases h
    exact recheckRoot_hides hrefused
  · exact resolveComponents_hides h

/-- Of names that resolve, each beginning from the root on is followed inside the root or is missing. -/
theorem resolveExistingPrefixes_beginning {candidate r : Path} {cs p : List Name} (hrooted : candidate.rooted = true)
    (hnames : candidate.names = root.names ++ cs) (hcs : ∀ c ∈ cs, ProperName c)
    (h : resolveExistingPrefixes fs candidate root = .ok r) (hp : p <+: candidate.names) (hroot : root.names <+: p) :
    (∃ E, locate fs p = .ok E ∧ root.names <+: E) ∨
      ((∀ E, locate fs p ≠ .ok E) ∧ symlinkStatus fs (Path.absolute p) = .error .notFound) := by
  obtain ⟨hcanonical,-,hcomponents⟩ := resolveExistingPrefixes_ok hrooted hnames hcs h
  obtain ⟨q,rfl⟩ := hroot
  rw [hnames] at hp
  have hq := (List.prefix_append_right_inj root.names).mp hp
  cases q using List.reverseRecOn with
  | nil =>
    rw [List.append_nil]
    exact Or.inl ⟨root.names,locate_of_canonical hcanonical,List.prefix_refl _⟩
  | append_singleton q n =>
    rcases resolveComponents_prefixes hcanonical root.proper hcs hcomponents (q ++ [n]) (by simp) hq with
      ⟨E,hlocate,-,hinside⟩ | hmissing
    · exact Or.inl ⟨E,hlocate,hinside⟩
    · refine Or.inr ⟨fun E hlocate => ?_,hmissing⟩
      have hproper : ∀ x ∈ (root.names ++ q) ++ [n], ProperName x := by
        intro x hx
        rw [List.append_assoc] at hx
        rcases List.mem_append.mp hx with hx | hx
        · exact root.proper x hx
        · exact hcs x (hq.subset hx)
      rw [← List.append_assoc] at hlocate hmissing
      obtain ⟨k,hk⟩ := symlinkStatus_located hproper hlocate
      rw [hk] at hmissing
      cases hmissing

theorem resolveExistingPrefixes_astray {candidate r : Path} {cs : List Name} (hrooted : candidate.rooted = true)
    (hnames : candidate.names = root.names ++ cs) (hcs : ∀ c ∈ cs, ProperName c)
    (h : resolveExistingPrefixes fs candidate root = .ok r) : ¬Astray fs root candidate.names := by
  intro hastray
  cases hastray with
  | climbs hout => exact hout (by rw [hnames]; exact List.prefix_append _ _)
  | leaves p E hp hroot hlocate hout =>
    rcases resolveExistingPrefixes_beginning hrooted hnames hcs h hp hroot with ⟨E',hlocate',hinside⟩ | ⟨hnowhere,-⟩
    · rw [hlocate] at hlocate'
      exact hout (Except.ok.inj hlocate' ▸ hinside)
    · exact hnowhere E hlocate
  | stuck p e hp hroot hlocate hthere =>
    rcases resolveExistingPrefixes_beginning hrooted hnames hcs h hp hroot with ⟨E,hlocate',-⟩ | ⟨-,hmissing⟩
    · rw [hlocate] at hlocate'
      cases hlocate'
    · exact hthere hmissing
  | uprooted hlost =>
    obtain ⟨hcanonical,hdirectory,-⟩ := resolveExistingPrefixes_ok hrooted hnames hcs h
    exact hlost ⟨hcanonical,hdirectory⟩

theorem hasPortableRoot_plain {text : Bytes} (h : PlainRequest request text) : hasPortableRoot text = false := by
  cases text with
  | nil => rfl
  | cons first rest =>
    have hslash : first ≠ char '/' := fun hfirst => h.unrooted (congrArg some hfirst)
    have hdrive : rest.head? = some (char ':') →
        ¬(char 'A' ≤ first ∧ first ≤ char 'Z') ∧ ¬(char 'a' ≤ first ∧ first ≤ char 'z') := by
      intro hcolon
      obtain ⟨more,rfl⟩ := List.head?_eq_some_iff.mp hcolon
      exact h.driveless first more rfl
    simp only [hasPortableRoot,Bool.or_eq_false_iff,Bool.and_eq_false_iff,decide_eq_false_iff_not]
    by_cases hcolon : rest.head? = some (char ':')
    · obtain ⟨hupper,hlower⟩ := hdrive hcolon
      exact ⟨hslash,Or.inl ⟨not_and_or.mp hupper,not_and_or.mp hlower⟩⟩
    · exact ⟨hslash,Or.inr hcolon⟩

/-- The text of a path that may be asked for is refused only when it climbs out of the root. -/
theorem lexicalCandidate_askable {text : Bytes} (h : Askable request text) :
    lexicalCandidate root request =
      if !isWithinRoot (normalizedCandidate root text) root.path then .error ⟨.outsideSharedRoot,request⟩
      else .ok (normalizedCandidate root text) := by
  have hnull : find 0 text = none := find_eq_none_iff.mpr h.plain.null
  rw [lexicalCandidate,if_neg (not_lt.mpr h.short),h.decoded]
  dsimp only
  rw [h.plain.utf8,hnull,hasPortableRoot_plain h.plain,h.plain.relative,h.unreserved]
  rfl

theorem resolve_hidden (h : Hidden fs root request) :
    ∃ e, SafePath.resolve fs root request = .error e ∧ hidesPathDetail e.code = true := by
  obtain ⟨text,haskable,hastray⟩ := h
  rw [SafePath.resolve,lexicalCandidate_askable haskable]
  by_cases hwithin : isWithinRoot (normalizedCandidate root text) root.path = true
  · rw [hwithin,if_neg (by decide)]
    obtain ⟨hrooted,hproper⟩ := normalizedCandidate_rooted root haskable.plain.relative
    obtain ⟨cs,hcs⟩ := names_of_isWithinRoot hrooted hwithin
    cases hresolve : resolveExistingPrefixes fs (normalizedCandidate root text) root with
    | ok r =>
      refine absurd hastray (resolveExistingPrefixes_astray hrooted hcs.symm (fun c hc => hproper c ?_) hresolve)
      rw [← hcs]
      exact List.mem_append_right _ hc
    | error code =>
      dsimp only
      rw [hresolve]
      exact ⟨⟨code,request⟩,rfl,resolveExistingPrefixes_hides hresolve⟩
  · rw [Bool.not_eq_true] at hwithin
    rw [hwithin]
    exact ⟨_,rfl,rfl⟩

theorem interruption_code {moment : Moment} {e : FilesystemResourceAccessError}
    (h : interruption moment deadline = some e) : e.code ≠ .invalidPath := by
  unfold interruption at h
  split at h
  · cases h
    simp
  · cases h
    simp
  · cases h

theorem earlyCheck_code {moment : Moment} {single : FilesystemResourceAccessRequest}
    {st : FilesystemResourceCoordinatorState} {e : FilesystemResourceAccessError}
    (h : earlyCheck moment deadline [single] st = .error e) : e.code ≠ .invalidPath := by
  unfold earlyCheck at h
  split at h
  · rename_i hinterrupted
    cases h
    exact interruption_code hinterrupted
  · rw [if_neg (by simp)] at h
    split at h
    · cases h
      simp
    · split at h
      · cases h
        simp
      · cases h

theorem register_code {allocates : Bool} {moment : Moment} {claims : List ResourceClaim}
    {st : FilesystemResourceCoordinatorState} {e : FilesystemResourceAccessError}
    (h : (register allocates moment deadline claims st).1 = .error e) : e.code ≠ .invalidPath := by
  unfold register at h
  split at h
  · rename_i hinterrupted
    cases h
    exact interruption_code hinterrupted
  · split at h
    · cases h
      simp
    · split at h
      · cases h
        simp
      · split at h
        · cases h
          simp
        · cases h

theorem makeClaims_single {fs : Tree} (trees : ℕ → Tree) (h : trees 0 = fs)
    (single : FilesystemResourceAccessRequest) :
    makeClaims trees [single] = (makeClaim fs single).map fun claim => [claim] := by
  unfold makeClaims
  rw [h]
  cases makeClaim fs single <;> rfl

/-- Only a path that cannot be resolved is refused as one, with the error of its resolution. -/
theorem acquire_invalidPath {e : FilesystemResourceAccessError}
    (h : (acquire fs root request mode deadline acquisition).1 = .error e) (hcode : e.code = .invalidPath) :
    ∃ pathError, SafePath.resolve fs root request = .error pathError ∧ e = ⟨.invalidPath,some pathError⟩ := by
  unfold acquire acquireAll at h
  split at h
  · rename_i early hearly
    cases h
    exact absurd hcode (earlyCheck_code hearly)
  · split at h
    · rename_i prepared hprepare
      cases h
      unfold prepare at hprepare
      split at hprepare
      · cases hprepare
        cases hcode
      · rw [makeClaims_single _ rfl] at hprepare
        cases hsafe : SafePath.resolve fs root request with
        | error pathError =>
          simp only [makeClaim,hsafe,Except.map] at hprepare
          cases hprepare
          exact ⟨pathError,rfl,rfl⟩
        | ok safe =>
          -- the claim is made, and what remains is an interruption
          simp only [makeClaim,hsafe,Except.map] at hprepare
          split at hprepare
          · rename_i hinterrupted
            cases hprepare
            exact absurd hcode (interruption_code hinterrupted)
          · cases hprepare
    · exact absurd hcode (register_code h)

theorem acquire_unresolved {pathError : SafePathError} (h : SafePath.resolve fs root request = .error pathError)
    (hcoordinated : Coordinated fs root request mode deadline acquisition) :
    ∃ registry, acquire fs root request mode deadline acquisition = (.error ⟨.invalidPath,some pathError⟩,registry) := by
  cases hacquire : acquire fs root request mode deadline acquisition with
  | mk result registry =>
    cases result with
    | error e =>
      obtain ⟨pathError',hpath,rfl⟩ := acquire_invalidPath (congrArg Prod.fst hacquire)
        (hcoordinated e (congrArg Prod.fst hacquire))
      cases h.symm.trans hpath
      exact ⟨registry,rfl⟩
    | ok lease =>
      obtain ⟨claim,hclaim,-⟩ := acquire_registers hacquire
      obtain ⟨safe,hsafe,-⟩ := makeClaim_spec hclaim
      cases h.symm.trans hsafe

theorem acquire_resolved {safe : SafePath} (h : SafePath.resolve fs root request = .ok safe)
    (hcoordinated : Coordinated fs root request mode deadline acquisition) :
    ∃ lease registry, acquire fs root request mode deadline acquisition = (.ok lease,registry) := by
  cases hacquire : acquire fs root request mode deadline acquisition with
  | mk result registry =>
    cases result with
    | error e =>
      obtain ⟨pathError,hpath,-⟩ := acquire_invalidPath (congrArg Prod.fst hacquire)
        (hcoordinated e (congrArg Prod.fst hacquire))
      cases h.symm.trans hpath
    | ok lease => exact ⟨lease,registry,rfl⟩

theorem listDirectory_absent {host : DirectoryHost fs} (h : Absent fs root request) :
    listDirectory host root request = .error ⟨.notFound,some .noEntry,none⟩ := by
  obtain ⟨safe,hsafe,hmissing⟩ := h
  simp only [listDirectory,resolveDirectory,hsafe,hmissing]
  rfl

/-- The names of an absent request lead to an existing directory and from there to nothing. -/
theorem Absent.located (h : Absent fs root request) : ∃ safe text met missing existing,
    SafePath.resolve fs root request = .ok safe ∧ decodePathRequest request = .ok text ∧
      PlainRequest request text ∧ Located fs root text safe met missing existing ∧ missing ≠ [] := by
  obtain ⟨safe,hsafe,hmissing⟩ := h
  obtain ⟨text,met,missing,E,htext,hplain,hlocated⟩ := resolve_located hsafe
  refine ⟨safe,text,met,missing,E,hsafe,htext,hplain,hlocated,?_⟩
  rintro rfl
  have hexists := locate_of_canonical hlocated.canonical
  rw [hlocated.path,resolve_absolute hlocated.pathProper,List.append_nil,hexists] at hmissing
  cases hmissing

/-- A directory that opens in front of the last name holds nothing of that name. -/
theorem last_missing {text : Bytes} {safe : SafePath} {met missing E ds D : List Name} {n : Name}
    (h : Located fs root text safe met missing E) (hne : missing ≠ [])
    (hsplit : root.names ++ (met ++ missing) = ds ++ [n]) (hlocate : locate fs ds = .ok D) :
    fs.kind (D ++ [n]) = none := by
  cases missing using List.reverseRecOn with
  | nil => exact absurd rfl hne
  | append_singleton missing m =>
    rw [← List.append_assoc,← List.append_assoc] at hsplit
    obtain ⟨rfl,hlast⟩ := List.append_inj' hsplit rfl
    rw [← List.singleton_inj.mp hlast]
    rw [locate_through h.canonical h.located] at hlocate
    cases missing with
    | nil =>
      rw [List.append_nil,locate_of_canonical h.canonical] at hlocate
      cases hlocate
      exact (h.absent m [] rfl).2
    | cons x missing =>
      -- the directory itself would have to be there
      obtain ⟨hdir,hkind⟩ := h.absent x (missing ++ [m]) rfl
      rw [locate_missing hdir h.canonical (h.proper x (by simp)) hkind] at hlocate
      cases hlocate

theorem removeConfinedEntry_missing {answers : RemovalAnswers} {entries : DirectoryEntries Kind} {n : Name}
    (hn : ProperName n) (hlandlock : answers.landlockRefused = none) (hunlink : answers.unlinkRefused = none)
    (h : entries.entry n = none) :
    removeConfinedEntry answers n entries = (.error ⟨.notFound,none,some .noEntry⟩,entries) := by
  have hfilename : isFilename n = true := by
    simp [isFilename,hn.nonempty,hn.separator]
  simp only [removeConfinedEntry,hfilename,hlandlock,hunlink,unlink,h]
  rfl

/-- A removal of what is not there fails at the parent or at the entry. -/
theorem removeFilesystemEntry_absent {answers : RemovalAnswers} (h : Absent fs root request)
    (hname : (lexicalDestination root request).filename ≠ []) (hlandlock : answers.landlockRefused = none)
    (hunlink : answers.unlinkRefused = none) :
    ∃ e mutations, removeFilesystemEntry fs root request answers = (.error e,mutations) ∧
      publicRemovalError e = (.notFound,"not_found") := by
  obtain ⟨safe,text,met,missing,E,hsafe,htext,hplain,hlocated,hne⟩ := h.located
  have hpath : lexicalDestination root request = normalizedCandidate root text := by
    rw [lexicalDestination,htext]
  rw [hpath] at hname
  obtain ⟨hrooted,hproper⟩ := normalizedCandidate_rooted root hplain.relative
  have hfilename : ProperName (normalizedCandidate root text).filename := by
    apply hproper
    simp [Path.names,hname]
  have hvalid : ((normalizedCandidate root text).isEmpty ||
      invalidDestination root (normalizedCandidate root text)) = false := by
    have hother : normalizedCandidate root text ≠ root.path := by
      intro hsame
      have hnames := hlocated.names
      rw [hsame] at hnames
      have hlength := congrArg List.length hnames
      simp only [SharedRoot.names,List.length_append] at hlength
      have := List.length_pos_iff.mpr hne
      omega
    simp [Path.isEmpty,invalidDestination,hrooted,hother,hname,hfilename.dot,hfilename.dotDot]
  obtain ⟨hsplit,hparent⟩ := destination_cases hrooted hlocated.names hlocated.requestedProper
    (Bool.or_eq_false_iff.mp hvalid).2
  unfold removeFilesystemEntry
  rw [hsafe,hpath]
  dsimp only
  rw [hvalid,if_neg Bool.false_ne_true]
  split
  · exact ⟨_,_,rfl,rfl⟩
  · rename_i parent hopen
    rw [hparent] at hopen
    have hdirs : ∀ x ∈ (normalizedCandidate root text).dirs, ProperName x := by
      intro x hx
      apply hlocated.requestedProper
      rw [hsplit]
      exact List.mem_append_left _ hx
    obtain ⟨-,hlocate⟩ := openConfinedDirectory_spec hdirs hopen
    have hmissing : (DirectoryHandle.entries parent.directory).entry (normalizedCandidate root text).filename = none :=
      last_missing hlocated hne hsplit hlocate
    rw [removeConfinedEntry_missing hfilename hlandlock hunlink hmissing]
    exact ⟨_,_,rfl,rfl⟩

theorem notFoundResponse_made (date : Bytes) :
    makePublicErrorResponse date (some (.notFound,"not_found")) = some (.ok (notFoundResponse date)) :=
  congrArg some (makeResponse_eq date _ (by decide))

/-- A read and a removal answer a request for what is hidden and a request for what is absent with the same bytes. -/
theorem hidden_looks_absent (date : Bytes) (fs opened : Tree) (service : FilesystemService) (request : Bytes)
    (deadline : Option ℤ) (acquisition : AcquisitionAnswers) (exhausted : Bool)
    (h : Hidden fs service.root request ∨ Absent fs service.root request) :
    (service.permissions.allowRead = true →
      Coordinated fs service.root request .sharedRead deadline acquisition →
      ∀ mimeTypes (host : DirectoryHost fs) openAnswers readDeadline answers,
        handleResource date opened service mimeTypes request deadline acquisition host openAnswers readDeadline
          answers exhausted = answered exhausted FilesystemReadErrorCode.resourceAllocationFailed.ctorIdx
            (some (.ok (notFoundResponse date)))) ∧
    (service.permissions.allowDelete = true →
      Coordinated fs service.root request .exclusiveMutation deadline acquisition →
      ∀ answers : RemovalAnswers, answers.landlockRefused = none → answers.unlinkRefused = none →
        (Absent fs service.root request → (lexicalDestination service.root request).filename ≠ []) →
        handleDeletion date fs service 0 request deadline acquisition answers exhausted =
          answered exhausted FilesystemRemovalErrorCode.resourceAllocationFailed.ctorIdx
            (some (.ok (notFoundResponse date)))) := by
  constructor
  · intro hallowed hcoordinated mimeTypes host openAnswers readDeadline answers
    rw [handleResource,FilesystemService.read,if_neg (by simp [hallowed])]
    rcases h with hhidden | habsent
    · obtain ⟨e,hpath,hhides⟩ := resolve_hidden hhidden
      obtain ⟨registry,hacquire⟩ := acquire_unresolved hpath hcoordinated
      rw [hacquire]
      have htold : readFailure (readCoordinationError ⟨.invalidPath,some e⟩) = some (.notFound,"not_found") := by
        simp [readFailure,readCoordinationError,coordinationError,publicListingError,invalidPathFailure,hhides]
      dsimp only
      rw [htold,notFoundResponse_made]
    · obtain ⟨safe,-,-,-,-,hsafe,-⟩ := habsent.located
      obtain ⟨lease,registry,hacquire⟩ := acquire_resolved hsafe hcoordinated
      rw [hacquire]
      dsimp only
      rw [listDirectory_absent habsent]
      exact congrArg (answered exhausted _) (notFoundResponse_made date)
  · intro hallowed hcoordinated answers hlandlock hunlink hname
    rw [handleDeletion,FilesystemService.remove,if_neg (by simp [hallowed]),if_neg (by simp)]
    unfold handleMutation
    rcases h with hhidden | habsent
    · obtain ⟨e,hpath,hhides⟩ := resolve_hidden hhidden
      obtain ⟨registry,hacquire⟩ := acquire_unresolved hpath hcoordinated
      rw [hacquire]
      have htold : removalFailure (removalCoordinationError ⟨.invalidPath,some e⟩) = some (.notFound,"not_found") := by
        simp [removalFailure,removalCoordinationError,coordinationError,publicRemovalError,invalidPathFailure,hhides]
      dsimp only
      rw [htold,notFoundResponse_made]
    · obtain ⟨safe,-,-,-,-,hsafe,-⟩ := habsent.located
      obtain ⟨lease,registry,hacquire⟩ := acquire_resolved hsafe hcoordinated
      obtain ⟨e,mutations,hremove,htold⟩ := removeFilesystemEntry_absent habsent (hname habsent) hlandlock hunlink
      rw [hacquire]
      dsimp only
      rw [hremove]
      dsimp only
      have hfailure : removalFailure ⟨.filesystemRemovalFailed,some (.removal e)⟩ = some (.notFound,"not_found") :=
        congrArg some htold
      rw [hfailure,notFoundResponse_made]

/-- A new coordinator refuses its only user nothing but a path. -/
theorem coordinated_alone (fs : Tree) (root : SharedRoot) (request : Bytes) (mode : FilesystemResourceAccessMode) :
    Coordinated fs root request mode none granted := by
  intro e h
  cases hclaim : makeClaim fs ⟨some root,request,mode⟩ with
  | ok claim =>
    rw [acquire_alone hclaim] at h
    cases h
  | error refused =>
    have hcheck : earlyCheck ⟨false,0⟩ none [⟨some root,request,mode⟩] FilesystemResourceCoordinator.create =
        .ok () := rfl
    simp only [acquire,acquireAll,granted,hcheck,prepare,makeClaims,hclaim] at h
    cases h
    unfold makeClaim at hclaim
    dsimp only at hclaim
    split at hclaim
    · cases hclaim
      rfl
    · cases hclaim

theorem askable_of_checks {text : Bytes} (hshort : request.length ≤ maximumRequestedPathBytes)
    (hdecoded : decodePathRequest request = .ok text) (hutf8 : Utf8.isValid text = true) (hnull : 0 ∉ text)
    (hportable : hasPortableRoot text = false)
    (hunreserved : (Path.ofText text).lexicallyNormal.elements.any isUploadStageComponent = false) :
    Askable request text :=
  have hrelative := hasPortableRoot_false hportable
  ⟨hshort,hdecoded,⟨decodePathRequest_eq_ok_iff.mp hdecoded,hutf8,hnull,hrelative.1,hrelative.2⟩,hunreserved⟩

/-- What lies above the root is read like a file that is missing, and what a link shows of it is removed like one. -/
theorem hidden_looks_absent_linked :
    (∀ request ∈ [ascii "../etc/passwd",ascii "goodbye.txt"],
      handleResource [] helloTree linkedService noMimeTypes request none granted unreadableHost openedHello none
        helloReads false = some (.ok (notFoundResponse []))) ∧
    ∀ request ∈ [ascii "out/passwd",ascii "docs/passwd"],
      handleDeletion [] linkedTree linkedService 0 request none granted ⟨none,none,none⟩ false =
        some (.ok (notFoundResponse [])) := by
  constructor
  · intro request hrequest
    have h : Hidden helloTree linkedRoot request ∨ Absent helloTree linkedRoot request := by
      simp only [List.mem_cons,List.not_mem_nil,or_false] at hrequest
      rcases hrequest with rfl | rfl
      · exact Or.inl ⟨ascii "../etc/passwd",
          askable_of_checks (by decide) (by decide +kernel) (by decide +kernel) (by decide) (by decide)
            (by decide +kernel),
          .climbs (by decide +kernel)⟩
      · exact Or.inr ⟨⟨Path.absolute [ascii "srv",ascii "goodbye.txt"]⟩,by decide +kernel,by decide +kernel⟩
    exact (hidden_looks_absent [] helloTree helloTree linkedService request none granted false h).1 rfl
      (coordinated_alone _ _ _ _) noMimeTypes unreadableHost openedHello none helloReads
  · intro request hrequest
    simp only [List.mem_cons,List.not_mem_nil,or_false] at hrequest
    have h : Hidden linkedTree linkedRoot request ∨ Absent linkedTree linkedRoot request := by
      rcases hrequest with rfl | rfl
      · exact Or.inl ⟨ascii "out/passwd",
          askable_of_checks (by decide) (by decide +kernel) (by decide +kernel) (by decide) (by decide)
            (by decide +kernel),
          .leaves [ascii "srv",ascii "out"] [ascii "etc"] (by decide +kernel) (by decide +kernel) (by decide +kernel)
            (by decide +kernel)⟩
      · exact Or.inr ⟨⟨Path.absolute [ascii "srv",ascii "docs",ascii "passwd"]⟩,by decide +kernel,by decide +kernel⟩
    refine (hidden_looks_absent [] linkedTree linkedTree linkedService request none granted false h).2 rfl
      (coordinated_alone _ _ _ _) ⟨none,none,none⟩ rfl rfl (fun _ => ?_)
    rcases hrequest with rfl | rfl <;> decide +kernel

end SpareNode.Http.Api
