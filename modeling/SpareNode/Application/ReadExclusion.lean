import SpareNode.Application.FilesystemRead
import SpareNode.Application.MutationCoverage

/-! # Files that are being sent

An open file lies below the root, even when the tree changes between the check of its path and the opening.
As long as its lease object is left alone, no operation of any location can remove, replace or create the
file or a directory above it, since its claim would conflict with that of the file.
-/
namespace SpareNode.Application
open LexicalPath FileTree Filesystem Concurrency Storage FilesystemResourceCoordinator
open SharedCoordinator (Unnested)

variable {fs : Tree} {service : FilesystemService} {request : Bytes} {deadline : Option ℤ}
variable {acquisition : AcquisitionAnswers} {host : DirectoryHost fs} {answers : OpenAnswers}

/-- The exclusive claim of a request is active under the lease of an operation. -/
def Leased (fs : Tree) (root : SharedRoot) (request : Bytes) (lease : Option ℕ)
    (registry : FilesystemResourceCoordinatorState) : Prop :=
  ∃ identifier claim, lease = some identifier ∧ makeClaim fs ⟨some root,request,.exclusiveMutation⟩ = .ok claim ∧
    ⟨identifier,[claim]⟩ ∈ registry.active

/-- An operation of a location changes something, between the registration of its claim and the release. -/
inductive Mutates (fs : Tree) (service : FilesystemService) (registry : FilesystemResourceCoordinatorState)
    (mutation : Mutation) : Prop
  | upload (request : Bytes) (content : FilesystemUploadContent) (answers : UploadAnswers)
      (leased : Leased fs service.root request (service.upload fs request content answers).lease registry)
      (changed : mutation ∈ (service.upload fs request content answers).mutations)
  | createDirectory (request : Bytes) (contentSize : ℕ) (deadline : Option ℤ) (acquisition : AcquisitionAnswers)
      (refused : Option Errno) (exhausted : Bool)
      (leased : Leased fs service.root request
        (service.createDirectory fs request contentSize deadline acquisition refused exhausted).lease registry)
      (changed : mutation ∈
        (service.createDirectory fs request contentSize deadline acquisition refused exhausted).mutations)
  | remove (request : Bytes) (contentSize : ℕ) (deadline : Option ℤ) (acquisition : AcquisitionAnswers)
      (answers : RemovalAnswers)
      (leased : Leased fs service.root request
        (service.remove fs request contentSize deadline acquisition answers).lease registry)
      (changed : mutation ∈ (service.remove fs request contentSize deadline acquisition answers).mutations)

/-- What is known of a change when it happens: an active exclusive claim, which covers the changed entry
unless a link stands there. -/
structure Admitted (fs : Tree) (service : FilesystemService) (registry : FilesystemResourceCoordinatorState)
    (claim : ResourceClaim) (mutation : Mutation) : Prop where
  mode : claim.mode = .exclusiveMutation
  active : ∃ identifier, ⟨identifier,[claim]⟩ ∈ registry.active
  covers : (∀ target, fs.kind mutation.names ≠ some (.symlink target)) →
    Covered fs service.root claim mutation ∨ Staged fs service.root claim mutation

/-- An operation that has been granted its lease has its claim in the registry. -/
theorem acquire_leased {registry : FilesystemResourceCoordinatorState} {identifier : ℕ}
    (h : acquire fs service.root request .exclusiveMutation deadline acquisition = (.ok identifier,registry)) :
    Leased fs service.root request (some identifier) registry := by
  obtain ⟨claim,hclaim,hactive,-⟩ := acquire_registers h
  refine ⟨identifier,claim,rfl,hclaim,?_⟩
  rw [hactive]
  exact List.mem_append_right _ List.mem_cons_self

theorem Mutates.admitted {registry : FilesystemResourceCoordinatorState} {mutation : Mutation}
    (h : Mutates fs service registry mutation) : ∃ claim, Admitted fs service registry claim mutation := by
  cases h with
  | upload request content answers leased changed =>
    obtain ⟨identifier,claim,-,hclaim,hactive⟩ := leased
    obtain ⟨safe,hsafe,hroot,hmode,hnames,-⟩ := makeClaim_spec hclaim
    obtain ⟨-,source,-,-,hchanged⟩ := FilesystemService.upload_mutations changed
    obtain ⟨made,hmade,hcanonical,hplace⟩ := finalizeUpload_mutations hchanged
    obtain rfl : made = safe := Except.ok.inj (hmade.symm.trans hsafe)
    rw [← hnames] at hplace
    refine ⟨claim,hmode,⟨identifier,hactive⟩,fun _ => ?_⟩
    rcases hplace with hclaimed | ⟨hreserved,hbeside,hbelow⟩
    · exact Or.inl (covered_of_claimed hcanonical hmode hroot hclaimed)
    · exact Or.inr (staged_of_beside hcanonical hmode hroot hbelow hreserved hbeside)
  | createDirectory request contentSize deadline acquisition refused exhausted leased changed =>
    obtain ⟨identifier,claim,-,hclaim,hactive⟩ := leased
    obtain ⟨safe,hsafe,hroot,hmode,hnames,-⟩ := makeClaim_spec hclaim
    obtain ⟨-,-,-,hchanged⟩ := FilesystemService.createDirectory_mutations changed
    obtain ⟨made,hmade,hcanonical,hclaimed⟩ := createDirectory_mutations hchanged
    obtain rfl : made = safe := Except.ok.inj (hmade.symm.trans hsafe)
    exact ⟨claim,hmode,⟨identifier,hactive⟩,fun _ => Or.inl
      (covered_of_claimed hcanonical hmode hroot (hnames.trans hclaimed))⟩
  | remove request contentSize deadline acquisition answers leased changed =>
    obtain ⟨identifier,claim,-,hclaim,hactive⟩ := leased
    obtain ⟨safe,hsafe,hroot,hmode,hnames,-⟩ := makeClaim_spec hclaim
    obtain ⟨-,-,-,hchanged⟩ := FilesystemService.remove_mutations changed
    obtain ⟨made,hmade,hcanonical,-,hclaimed⟩ := removeFilesystemEntry_mutations hchanged
    obtain rfl : made = safe := Except.ok.inj (hmade.symm.trans hsafe)
    exact ⟨claim,hmode,⟨identifier,hactive⟩,fun hlink => Or.inl
      (covered_of_claimed hcanonical hmode hroot (hnames.trans (hclaimed hlink)))⟩

/-- On one tree, the opened file is the object of the claim. -/
theorem read_claimed {file : FilesystemFileRead fs}
    (h : (service.read fs fs request deadline acquisition host answers).result = .ok (.file file)) :
    ∃ claim, makeClaim fs ⟨some service.root,request,.sharedRead⟩ = .ok claim ∧
      claim.absoluteNames = file.stream.names ∧ claim.root = service.root.path ∧ claim.mode = .sharedRead ∧
      ⟨file.lease,[claim]⟩ ∈
        (service.read fs fs request deadline acquisition host answers).registry.active := by
  obtain ⟨-,hacquire,hopen,-⟩ := FilesystemService.read_file h
  obtain ⟨claim,hclaim,hactive,-⟩ := acquire_registers hacquire
  obtain ⟨made,hmade,hroot,hmode,hnames,-⟩ := makeClaim_spec hclaim
  obtain ⟨safe,-,hsafe,-,-,hobject,-⟩ := FileReadStream.openStream_spec hopen
  obtain rfl : made = safe := Except.ok.inj (hmade.symm.trans hsafe)
  obtain ⟨text,met,missing,E,-,-,hlocated⟩ := resolve_located hsafe
  rw [hlocated.path] at hobject
  have hlocate := locate_of_openObject hlocated.pathProper hobject
  -- names that are missing could not have been opened
  have hnil : missing = [] := by
    by_contra hne
    rw [hlocated.missing_error hne] at hlocate
    cases hlocate
  rw [hnil,List.append_nil,locate_of_canonical hlocated.canonical] at hlocate
  refine ⟨claim,hclaim,?_,hroot,hmode,?_⟩
  · rw [hnames,hlocated.pathNames,hnil,List.append_nil]
    exact Except.ok.inj hlocate
  · rw [hactive]
    exact List.mem_append_right _ List.mem_cons_self

/-- No link stands on the way to a canonical object. -/
theorem canonical_no_link {ns p : List Name} {target : Path} (h : Canonical fs.kind ns) (hp : p <+: ns) :
    fs.kind p ≠ some (.symlink target) := by
  obtain ⟨rest,rfl⟩ := hp
  obtain ⟨k,hk,hlink⟩ := h.of_append.present
  intro htarget
  rw [hk] at htarget
  exact hlink target (Option.some.inj htarget)

/-- An opened file lies below the root as it was opened. On a tree that does not change meanwhile, no operation
that holds its lease while the file is open changes the file or a directory above it, at whichever location and
whenever it has begun. -/
theorem open_file_undisturbed (fs : Tree) (service : FilesystemService) (request : Bytes) (deadline : Option ℤ)
    (acquisition : AcquisitionAnswers) (host : DirectoryHost fs) (answers : OpenAnswers) :
    (∀ opened (file : FilesystemFileRead opened),
      (service.read fs opened request deadline acquisition host answers).result = .ok (.file file) →
      ∃ root, openDirectory opened service.root.path = .ok root ∧ root.names <+: file.stream.names ∧
        Canonical opened.kind file.stream.names ∧ opened.kind file.stream.names = some .regular) ∧
    (∀ run (file : FilesystemFileRead fs), run = service.read fs fs request deadline acquisition host answers →
      run.result = .ok (.file file) →
      ∀ drawn start slot trace st, SharedCoordinator.Sound drawn start → start.registry = run.registry →
        start.Owns slot file.lease → SharedCoordinator.Run start trace st →
        drawn + SharedCoordinator.drawnIn trace < 2 ^ 64 → (∀ step ∈ trace, LeavesLease slot step.1) →
      ∀ later other mutation, Unnested {service.root,other.root} → Canonical later.kind file.stream.names →
        Mutates later other st.registry mutation → ¬mutation.names <+: file.stream.names) := by
  constructor
  · intro opened file h
    obtain ⟨-,-,hopen,-⟩ := FilesystemService.read_file h
    obtain ⟨safe,root,-,hroot,hwithin,-⟩ := FileReadStream.openStream_spec hopen
    exact ⟨root,hroot,hwithin,file.stream.canonical,file.stream.regular⟩
  · rintro run file rfl h drawn start slot trace st hsound hregistry howns hrun hdrawn hleaves later other mutation
      hroots hplace hmutates habove
    obtain ⟨claim,hmade,hnames,hroot,hmode,hactive⟩ := read_claimed h
    rw [← hregistry] at hactive
    have hheld : ⟨file.lease,[claim]⟩ ∈ st.registry.active := (run_keeps hsound hrun hdrawn hleaves howns hactive).2
    obtain ⟨taken,htaken,⟨identifier,hmember⟩,hcovers⟩ := hmutates.admitted
    have hother : (⟨file.lease,[claim]⟩ : ActiveClaimSet) ≠ ⟨identifier,[taken]⟩ := by
      intro hsame
      obtain rfl : claim = taken := by simpa using congrArg ActiveClaimSet.claims hsame
      rw [hmode] at htaken
      cases htaken
    have : Std.Symm Compatible := ⟨fun _ _ hcompatible => hcompatible.symm⟩
    have hcompatible : Compatible ⟨file.lease,[claim]⟩ ⟨identifier,[taken]⟩ :=
      (SharedCoordinator.run_sound hsound hrun hdrawn).registry.compatible.forall hheld hmember hother
    have hunrelated := hcompatible claim List.mem_cons_self taken List.mem_cons_self
    have hmeets : claim.Meets mutation.names := by
      rw [ResourceClaim.Meets,hnames]
      exact Or.inr habove
    rw [Set.pair_comm] at hroots
    have hconflict : conflicts taken claim = true := by
      rcases hcovers (fun target => canonical_no_link hplace habove) with hcovered | hstaged
      · exact hcovered.conflicting service.root claim hroots hroot hmeets
      · exact hstaged.conflicting service.root fs request .sharedRead claim hroots hmade hmeets
    rw [conflicts_comm,hconflict] at hunrelated
    cases hunrelated

def helloTree : Tree where
  kind ns :=
    if ns = [] ∨ ns = [ascii "srv"] then some .directory
    else if ns = [ascii "srv",ascii "hello.txt"] then some .regular
    else none
  root := by decide +kernel
  workingDirectory := []
  working := canonical_nil (by decide +kernel)
  linkDepth := 40

def unreadableHost : DirectoryHost helloTree where
  iterate directory :=
    { order := []
      nodup := List.nodup_nil
      entries := by simp
      failure := some (.other 5)
      complete := by simp }
  attributes _ := ⟨true,5,0⟩

def openedHello : OpenAnswers := ⟨fun _ => none,fun _ => ⟨true,5,0⟩⟩

def helloClaim : ResourceClaim := ⟨linkedRoot.path,[ascii "hello.txt"],.sharedRead⟩

theorem hello_claimed : makeClaim helloTree ⟨some linkedRoot,ascii "hello.txt",.sharedRead⟩ = .ok helloClaim := by
  decide +kernel

theorem hello_opened : ∃ stream, stream.names = [ascii "srv",ascii "hello.txt"] ∧
    FileReadStream.openStream helloTree helloTree linkedRoot (ascii "hello.txt") openedHello = .ok stream := by
  have hopened : (match FileReadStream.openStream helloTree helloTree linkedRoot (ascii "hello.txt") openedHello with
      | .ok stream => decide (stream.names = [ascii "srv",ascii "hello.txt"])
      | .error _ => false) = true := by decide +kernel
  split at hopened
  · rename_i stream hstream
    exact ⟨stream,of_decide_eq_true hopened,hstream⟩
  · cases hopened

/-- The file is opened by the only user of a new coordinator. -/
theorem hello_read : ∃ stream, stream.names = [ascii "srv",ascii "hello.txt"] ∧
    linkedService.read helloTree helloTree (ascii "hello.txt") none granted unreadableHost openedHello =
      ⟨.ok (.file ⟨stream,1,none⟩),some 1,⟨[⟨1,[helloClaim]⟩],1,2⟩⟩ := by
  obtain ⟨stream,hnames,hstream⟩ := hello_opened
  have hlisting : listDirectory unreadableHost linkedRoot (ascii "hello.txt") = .error ⟨.notDirectory,none,none⟩ := by
    decide +kernel
  refine ⟨stream,hnames,?_⟩
  rw [FilesystemService.read,if_neg (by decide)]
  simp only [linkedService,acquire_alone hello_claimed,hlisting,hstream]
  rfl

/-- The registry while the file is open, and once a directory beside it is being created. -/
def readingHello : FilesystemResourceCoordinatorState := ⟨[⟨1,[helloClaim]⟩],1,2⟩

def besideClaim : ResourceClaim := ⟨linkedRoot.path,[ascii "new"],.exclusiveMutation⟩

def besideHello : FilesystemResourceCoordinatorState := ⟨[⟨1,[helloClaim]⟩,⟨2,[besideClaim]⟩],2,3⟩

def openedCoordinator : SharedCoordinator :=
  ⟨readingHello,Function.update SharedCoordinator.initial.leases 0 (some ⟨true,1⟩),SharedCoordinator.initial.calls⟩

def grantedBeside : AcquisitionAnswers := { granted with before := readingHello, after := readingHello }

theorem beside_claimed : makeClaim helloTree ⟨some linkedRoot,ascii "new",.exclusiveMutation⟩ = .ok besideClaim := by
  decide +kernel

theorem beside_registered : register true ⟨false,0⟩ none [besideClaim] readingHello = (.ok 2,besideHello) := by
  decide +kernel

theorem beside_acquired : acquire helloTree linkedService.root (ascii "new") .exclusiveMutation none grantedBeside =
    (.ok 2,besideHello) := by
  have hcheck : earlyCheck ⟨false,0⟩ none [⟨some linkedRoot,ascii "new",.exclusiveMutation⟩] readingHello =
      .ok () := rfl
  simp only [acquire,acquireAll,grantedBeside,granted,linkedService,hcheck,prepare_single beside_claimed,
    beside_registered]

theorem beside_created : linkedService.createDirectory helloTree (ascii "new") 0 none grantedBeside none false =
    ⟨.ok (),some 2,besideHello,[⟨[ascii "srv"],.created (ascii "new")⟩],none⟩ := by
  have hcreate : Filesystem.createDirectory helloTree linkedService.root (ascii "new") none false =
      (.ok (Path.absolute [ascii "srv",ascii "new"]),[⟨[ascii "srv"],.created (ascii "new")⟩]) := by decide +kernel
  rw [FilesystemService.createDirectory,if_neg (by decide),if_neg (by decide)]
  simp only [beside_acquired,hcreate]

theorem beside_mutates : Mutates helloTree linkedService besideHello ⟨[ascii "srv"],.created (ascii "new")⟩ := by
  refine .createDirectory (ascii "new") 0 none grantedBeside none false ?_ ?_
  · rw [beside_created]
    exact acquire_leased beside_acquired
  · rw [beside_created]
    exact List.mem_cons_self

/-- While the file is open a directory can be created beside it, and nothing at it or above it. -/
theorem open_file_undisturbed_hello : ∃ stream,
    linkedService.read helloTree helloTree (ascii "hello.txt") none granted unreadableHost openedHello =
      ⟨.ok (.file ⟨stream,1,none⟩),some 1,readingHello⟩ ∧
    Mutates helloTree linkedService besideHello ⟨[ascii "srv"],.created (ascii "new")⟩ ∧
    ∀ mutation, Mutates helloTree linkedService besideHello mutation → ¬mutation.names <+: stream.names := by
  obtain ⟨stream,-,hread⟩ := hello_read
  have hregister : register true ⟨false,0⟩ none [helloClaim] create = (.ok 1,readingHello) := by decide +kernel
  have hcheck : earlyCheck ⟨false,0⟩ none [⟨some linkedRoot,ascii "hello.txt",.sharedRead⟩]
      SharedCoordinator.initial.registry = .ok () := rfl
  have hopened : SharedCoordinator.Run _ _ openedCoordinator :=
    @SharedCoordinator.run_call SharedCoordinator.initial SharedCoordinator.initial [] SharedCoordinator.Run.nil 0 0 1
      none _ _ _ ⟨false,0⟩ ⟨false,0⟩ ⟨false,0⟩ _ rfl rfl hcheck (prepare_single hello_claimed) hregister
  have hsound := SharedCoordinator.run_sound SharedCoordinator.initial_sound hopened (by decide)
  have hcheckBeside : earlyCheck ⟨false,0⟩ none [⟨some linkedRoot,ascii "new",.exclusiveMutation⟩] readingHello =
      .ok () := rfl
  have hcreating := @SharedCoordinator.run_call openedCoordinator openedCoordinator [] SharedCoordinator.Run.nil 0 1 2
    none _ _ _ ⟨false,0⟩ ⟨false,0⟩ ⟨false,0⟩ _ rfl rfl hcheckBeside (prepare_single beside_claimed) beside_registered
  refine ⟨stream,hread,beside_mutates,fun mutation h => ?_⟩
  refine (open_file_undisturbed helloTree linkedService (ascii "hello.txt") none granted unreadableHost
    openedHello).2 _ ⟨stream,1,none⟩ rfl (by rw [hread]) _ _ 0 _ _ hsound (by rw [hread]; rfl) rfl
    hcreating (by decide) ?_ helloTree linkedService mutation ?_ stream.canonical h
  · simp only [List.nil_append,List.cons_append,List.forall_mem_cons]
    exact ⟨trivial,trivial,trivial,by simp⟩
  · intro root hroot root' hroot' _
    rcases hroot with rfl | rfl <;> rcases hroot' with rfl | rfl <;> rfl

end SpareNode.Application
