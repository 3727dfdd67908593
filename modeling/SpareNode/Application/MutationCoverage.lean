import SpareNode.Application.CoordinatorContract
import SpareNode.Application.CoordinatorExclusion
import SpareNode.Application.FilesystemService

/-! # Coverage of mutations by claims

The claim of an operation comes from the safe path of the request, with all links followed;
its mutations come from the opened parent directory and the last name. For published uploads,
created directories and removed entries that are no links, both are the same path. The private
stage of an upload lies beside that path, under a name that no claim can reach.
-/
namespace SpareNode.Application
open LexicalPath FileTree Filesystem Concurrency Storage FilesystemResourceCoordinator
open SharedCoordinator (Unnested Related.overlap)

variable {fs : Tree} {root : SharedRoot} {request : Bytes} {mode : FilesystemResourceAccessMode}
variable {claim other : ResourceClaim} {identifier : ℕ} {names : List Name}

/-- The object of a claim stands at the names, above them or below them. -/
def ResourceClaim.Meets (claim : ResourceClaim) (names : List Name) : Prop :=
  claim.absoluteNames <+: names ∨ names <+: claim.absoluteNames

/-- A step that leaves a lease object as it is. -/
def LeavesLease (slot : ℕ) : Action → Prop
  | .moveLease target source => target ≠ slot ∧ source ≠ slot
  | .assignLease target source => target ≠ slot ∧ source ≠ slot
  | .destroyLease ended => ended ≠ slot
  | _ => True

/-- The claim set of a lease is one exclusive claim below a root. It is active in the registry,
and stays so while other threads use the coordinator and leave the lease object alone. -/
structure Holds (root : SharedRoot) (lease : Option ℕ) (registry : FilesystemResourceCoordinatorState)
    (claim : ResourceClaim) : Prop where
  leased : ∃ identifier, lease = some identifier ∧ ⟨identifier,[claim]⟩ ∈ registry.active ∧
    ∀ drawn start slot trace st, SharedCoordinator.Sound drawn start → start.registry = registry →
      start.Owns slot identifier → SharedCoordinator.Run start trace st →
      drawn + SharedCoordinator.drawnIn trace < 2 ^ 64 → (∀ step ∈ trace, LeavesLease slot step.1) →
      ⟨identifier,[claim]⟩ ∈ st.registry.active
  mode : claim.mode = .exclusiveMutation
  root : claim.root = root.path

/-- A mutation that is covered: its path is the claimed path, in a directory without links, and
it conflicts with every claim that meets it, below any root that is not nested with this one. -/
structure Covered (fs : Tree) (root : SharedRoot) (claim : ResourceClaim) (mutation : Mutation) : Prop where
  canonical : Canonical fs.kind mutation.directory
  claimed : claim.absoluteNames = mutation.names
  conflicting : ∀ (root' : SharedRoot) (other : ResourceClaim), Unnested {root,root'} →
    other.root = root'.path → other.Meets mutation.names → conflicts claim other = true

/-- A mutation of the private stage: a reserved name beside the claimed path, which conflicts
with every claim that a request can make and that meets it, below such roots. -/
structure Staged (fs : Tree) (root : SharedRoot) (claim : ResourceClaim) (mutation : Mutation) : Prop where
  canonical : Canonical fs.kind mutation.directory
  reserved : isUploadStageComponent mutation.change.name = true
  beside : claim.absoluteNames.dropLast = mutation.directory
  conflicting : ∀ (root' : SharedRoot) (tree : Tree) (request : Bytes)
    (mode : FilesystemResourceAccessMode) (other : ResourceClaim), Unnested {root,root'} →
    makeClaim tree ⟨some root',request,mode⟩ = .ok other → other.Meets mutation.names →
    conflicts claim other = true

/-- A claim is for the safe path of its request. -/
theorem makeClaim_spec (h : makeClaim fs ⟨some root,request,mode⟩ = .ok claim) :
    ∃ safe, SafePath.resolve fs root request = .ok safe ∧ claim.root = root.path ∧ claim.mode = mode ∧
      claim.absoluteNames = safe.path.names ∧ ∀ c ∈ claim.components, isUploadStageComponent c = false := by
  unfold makeClaim at h
  dsimp only at h
  cases hsafe : SafePath.resolve fs root request with
  | error e =>
    rw [hsafe] at h
    cases h
  | ok safe =>
    rw [hsafe] at h
    cases h
    obtain ⟨text,met,missing,E,-,-,hlocated⟩ := resolve_located hsafe
    obtain ⟨rest,hrest⟩ : root.names <+: E ++ missing := hlocated.within.trans (List.prefix_append _ _)
    have hrooted : safe.path.rooted = true := by
      rw [hlocated.path]
      exact (Path.absolute_spec hlocated.pathProper).1
    have hnames : safe.path.names = root.names ++ rest := hlocated.pathNames.trans hrest.symm
    have hproper : ∀ x ∈ rest, ProperName x := by
      intro x hx
      apply hlocated.pathProper x
      rw [← hrest]
      exact List.mem_append_right _ hx
    have hcomponents : (safe.path.lexicallyRelative root.path).elements.filter
        (fun component => !component.isEmpty && decide (component ≠ dot)) = rest := by
      have hrelative := Path.lexicallyRelative_names hrooted hnames root.proper hproper
      rw [SharedRoot.names,← root.absolute] at hrelative
      exact hrelative
    refine ⟨safe,rfl,rfl,rfl,?_,fun c hc => hlocated.unstaged c (List.mem_filter.mp hc).1⟩
    rw [ResourceClaim.absoluteNames,hcomponents,hnames]
    rfl

/-- Claims below roots that do not nest conflict when their objects meet and one is exclusive. -/
theorem conflicts_of_related {root' : SharedRoot} (hroots : Unnested {root,root'})
    (hmode : claim.mode = .exclusiveMutation) (hroot : claim.root = root.path)
    (hroot' : other.root = root'.path) (h : claim.Related other) : conflicts claim other = true := by
  obtain ⟨hsame,hmeet⟩ := Related.overlap hroots (by simp) hroot (by simp) hroot' h
  simpa [conflicts,overlaps,isPrefix,hmode,hsame] using hmeet

section Kept
variable {start st st' : SharedCoordinator} {a : Action}
variable {o : Outcome} {slot drawn : ℕ} {set : ActiveClaimSet}
variable {trace : List (Action × Outcome)}

/-- A lease object that is left alone keeps what it owns. -/
theorem act_owns (h : SharedCoordinator.act st a = some (st',o)) (hleaves : LeavesLease slot a)
    (howns : st.Owns slot identifier) : st'.Owns slot identifier := by
  unfold SharedCoordinator.Owns at *
  cases a with
  | earlyCheck thread requests deadline moment =>
    simp only [SharedCoordinator.act] at h
    split at h
    · cases h
    · split at h <;> cases h <;> exact howns
  | prepare thread allocates trees moment =>
    simp only [SharedCoordinator.act] at h
    split at h
    · split at h <;> cases h <;> exact howns
    · cases h
  | register thread free allocates moment =>
    simp only [SharedCoordinator.act] at h
    split at h
    · rename_i claims deadline hcall hfree
      have hne : slot ≠ free := by
        rintro rfl
        rw [howns] at hfree
        cases hfree
      split at h <;> cases h
      · exact howns
      · exact (Function.update_of_ne hne _ _).trans howns
    · cases h
  | moveLease target source =>
    simp only [SharedCoordinator.act] at h
    split at h <;> cases h
    simp only [Function.update_of_ne hleaves.1.symm,Function.update_of_ne hleaves.2.symm]
    exact howns
  | assignLease target source =>
    simp only [SharedCoordinator.act] at h
    split at h
    · split at h <;> cases h
      · exact howns
      · simp only [Function.update_of_ne hleaves.1.symm,Function.update_of_ne hleaves.2.symm]
        exact howns
    · cases h
  | destroyLease ended =>
    simp only [SharedCoordinator.act] at h
    split at h <;> cases h
    exact (Function.update_of_ne (Ne.symm hleaves) _ _).trans howns

theorem endedLease_ne (hleaves : LeavesLease slot a) : SharedCoordinator.endedLease a ≠ some slot := by
  cases a with
  | assignLease target source =>
    simp only [SharedCoordinator.endedLease]
    split
    · simp
    · simpa using hleaves.1
  | destroyLease ended =>
    have hne : ended ≠ slot := hleaves
    simpa [SharedCoordinator.endedLease] using hne
  | _ => simp [SharedCoordinator.endedLease]

/-- The claims of a lease stay active through every run that leaves the lease object alone. -/
theorem run_keeps (hstart : SharedCoordinator.Sound drawn start) (h : SharedCoordinator.Run start trace st)
    (hdrawn : drawn + SharedCoordinator.drawnIn trace < 2 ^ 64)
    (hleaves : ∀ step ∈ trace, LeavesLease slot step.1) (howns : start.Owns slot set.identifier)
    (hset : set ∈ start.registry.active) : st.Owns slot set.identifier ∧ set ∈ st.registry.active := by
  induction h with
  | nil => exact ⟨howns,hset⟩
  | @snoc trace st st' a o h hact ih =>
    rw [SharedCoordinator.drawnIn_snoc] at hdrawn
    obtain ⟨hst,hmem⟩ := ih (by omega) (fun step hstep => hleaves step (by simp [hstep]))
    have hleave : LeavesLease slot a := hleaves (a,o) (by simp)
    have hsound := SharedCoordinator.run_sound hstart h (by omega)
    refine ⟨act_owns hact hleave hst,?_⟩
    by_contra hgone
    obtain ⟨ended,hended,hother⟩ := (SharedCoordinator.act_removes hsound hact hmem).mp hgone
    rw [hsound.unique _ _ _ hother hst] at hended
    exact endedLease_ne hleave hended

end Kept

/-- The lease of a single request holds the claim of that request, which conflicts with none before it. -/
theorem acquire_registers {deadline : Option ℤ} {answers : AcquisitionAnswers}
    {registry : FilesystemResourceCoordinatorState}
    (h : acquire fs root request mode deadline answers = (.ok identifier,registry)) :
    ∃ claim, makeClaim fs ⟨some root,request,mode⟩ = .ok claim ∧
      registry.active = answers.after.active ++ [⟨identifier,[claim]⟩] ∧
      ∀ set ∈ answers.after.active, ∀ held ∈ set.claims, conflicts held claim = false := by
  unfold acquire acquireAll at h
  split at h
  · cases h
  · split at h
    · cases h
    · rename_i claims hprepare
      obtain ⟨-,-,made,hmade,rfl⟩ := prepare_eq_ok_iff.mp hprepare
      cases hclaim : makeClaim fs ⟨some root,request,mode⟩ with
      | error e =>
        simp only [makeClaims,hclaim] at hmade
        cases hmade
      | ok claim =>
        simp only [makeClaims,hclaim] at hmade
        cases hmade
        rcases register_cases h with ⟨_,herror,-⟩ | ⟨hok,-,hfree,rfl⟩
        · cases herror
        · cases hok
          have hsorted : sortClaims [claim] = [claim] := List.mergeSort_singleton claim
          rw [hsorted] at hfree ⊢
          refine ⟨claim,rfl,rfl,?_⟩
          intro set hset held hheld
          exact (conflictsWithActive_eq_false _ _).mp hfree set hset held hheld claim List.mem_cons_self

/-- The lease of a single exclusive request holds the claim of that request. -/
theorem acquire_holds {deadline : Option ℤ} {answers : AcquisitionAnswers}
    {registry : FilesystemResourceCoordinatorState}
    (h : acquire fs root request .exclusiveMutation deadline answers = (.ok identifier,registry)) :
    ∃ claim, makeClaim fs ⟨some root,request,.exclusiveMutation⟩ = .ok claim ∧
      Holds root (some identifier) registry claim := by
  obtain ⟨claim,hclaim,hactive,-⟩ := acquire_registers h
  obtain ⟨-,-,hroot,hmode,-⟩ := makeClaim_spec hclaim
  have hregistered : ⟨identifier,[claim]⟩ ∈ registry.active := by
    rw [hactive]
    exact List.mem_append_right _ List.mem_cons_self
  refine ⟨claim,hclaim,⟨identifier,rfl,hregistered,?_⟩,hmode,hroot⟩
  intro drawn start slot trace st hsound hregistry howns hrun hdrawn hleaves
  exact (run_keeps hsound hrun hdrawn hleaves howns (by rw [hregistry]; exact hregistered)).2

theorem covered_of_claimed {mutation : Mutation} (hcanonical : Canonical fs.kind mutation.directory)
    (hmode : claim.mode = .exclusiveMutation) (hroot : claim.root = root.path)
    (hclaimed : claim.absoluteNames = mutation.names) : Covered fs root claim mutation := by
  refine ⟨hcanonical,hclaimed,?_⟩
  intro root' other hroots hother hmeets
  rw [← hclaimed] at hmeets
  exact conflicts_of_related hroots hmode hroot hother hmeets.symm

/-- A reserved name is met only from the directory that holds it, or from above. -/
theorem staged_of_beside {mutation : Mutation} (hcanonical : Canonical fs.kind mutation.directory)
    (hmode : claim.mode = .exclusiveMutation) (hroot : claim.root = root.path)
    (hbelow : root.names <+: mutation.directory)
    (hreserved : isUploadStageComponent mutation.change.name = true)
    (hbeside : claim.absoluteNames.dropLast = mutation.directory) : Staged fs root claim mutation := by
  refine ⟨hcanonical,hreserved,hbeside,?_⟩
  intro root' tree request mode other hroots hmade hmeets
  obtain ⟨-,-,hother,-,-,hunstaged⟩ := makeClaim_spec hmade
  have hnames : other.absoluteNames = root'.names ++ other.components := by
    rw [ResourceClaim.absoluteNames,hother]
    rfl
  -- a claim at or below the reserved name would have it among its components
  have hfree : ¬mutation.names <+: other.absoluteNames := by
    intro hmeets
    have hroot : root.names <+: other.absoluteNames :=
      (hbelow.trans (List.prefix_append _ _)).trans hmeets
    have hsame : root.names = root'.names := by
      rcases List.prefix_or_prefix_of_prefix hroot (hnames ▸ List.prefix_append _ _) with hle | hle
      · exact hroots root (by simp) root' (by simp) hle
      · exact (hroots root' (by simp) root (by simp) hle).symm
    obtain ⟨rest,hrest⟩ := hmeets
    obtain ⟨below,hdirectory⟩ := hbelow
    rw [hnames,Mutation.names,← hdirectory,← hsame,List.append_assoc,List.append_assoc,
      List.append_cancel_left_eq] at hrest
    have hunreserved := hunstaged mutation.change.name (by rw [← hrest]; simp)
    rw [hreserved] at hunreserved
    cases hunreserved
  have habove : other.absoluteNames <+: mutation.directory := by
    rcases hmeets with habove | hbelow'
    · rcases List.prefix_concat_iff.mp habove with heq | habove
      · exact absurd (by rw [heq,Mutation.names]) hfree
      · exact habove
    · exact absurd hbelow' hfree
  refine conflicts_of_related hroots hmode hroot hother (Or.inr (habove.trans ?_))
  rw [← hbeside]
  exact List.dropLast_prefix _

/-- What an operation changes is covered by the claim it holds: what an upload publishes, a
directory that is created, and a removed entry that is no link have the claimed path. -/
theorem mutations_covered (fs : Tree) (service : FilesystemService) (request : Bytes)
    (content : FilesystemUploadContent) (uploadAnswers : UploadAnswers) (contentSize : ℕ)
    (deadline : Option ℤ) (acquisition : AcquisitionAnswers) (refused : Option Errno) (exhausted : Bool)
    (removalAnswers : RemovalAnswers) :
    (∀ run, run = FilesystemService.upload fs service request content uploadAnswers →
      ∀ mutation ∈ run.mutations, ∃ claim, Holds service.root run.lease run.registry claim ∧
        (Covered fs service.root claim mutation ∨ Staged fs service.root claim mutation)) ∧
    (∀ run, run = FilesystemService.createDirectory fs service request contentSize deadline acquisition
        refused exhausted → ∀ mutation ∈ run.mutations, ∃ claim, Holds service.root run.lease run.registry claim ∧
          Covered fs service.root claim mutation) ∧
    (∀ run, run = FilesystemService.remove fs service request contentSize deadline acquisition
        removalAnswers → ∀ mutation ∈ run.mutations,
          ∃ claim, Holds service.root run.lease run.registry claim ∧
            ((∀ target, fs.kind mutation.names ≠ some (.symlink target)) →
              Covered fs service.root claim mutation)) := by
  refine ⟨?_,?_,?_⟩
  · rintro run rfl mutation hmutation
    obtain ⟨lease,source,hacquire,hlease,hchanged⟩ := FilesystemService.upload_mutations hmutation
    obtain ⟨claim,hmade,hholds⟩ := acquire_holds hacquire
    obtain ⟨made,hmade,-,-,hnames,-⟩ := makeClaim_spec hmade
    obtain ⟨safe,hsafe,hcanonical,hplace⟩ := finalizeUpload_mutations hchanged
    obtain rfl : made = safe := Except.ok.inj (hmade.symm.trans hsafe)
    rw [← hnames] at hplace
    refine ⟨claim,hlease ▸ hholds,?_⟩
    rcases hplace with hclaimed | ⟨hreserved,hbeside,hbelow⟩
    · exact Or.inl (covered_of_claimed hcanonical hholds.mode hholds.root hclaimed)
    · exact Or.inr (staged_of_beside hcanonical hholds.mode hholds.root hbelow hreserved hbeside)
  · rintro run rfl mutation hmutation
    obtain ⟨lease,hacquire,hlease,hchanged⟩ := FilesystemService.createDirectory_mutations hmutation
    obtain ⟨claim,hmade,hholds⟩ := acquire_holds hacquire
    obtain ⟨made,hmade,-,-,hnames,-⟩ := makeClaim_spec hmade
    obtain ⟨safe,hsafe,hcanonical,hclaimed⟩ := createDirectory_mutations hchanged
    obtain rfl : made = safe := Except.ok.inj (hmade.symm.trans hsafe)
    exact ⟨claim,hlease ▸ hholds,
      covered_of_claimed hcanonical hholds.mode hholds.root (hnames.trans hclaimed)⟩
  · rintro run rfl mutation hmutation
    obtain ⟨lease,hacquire,hlease,hchanged⟩ := FilesystemService.remove_mutations hmutation
    obtain ⟨claim,hmade,hholds⟩ := acquire_holds hacquire
    obtain ⟨made,hmade,-,-,hnames,-⟩ := makeClaim_spec hmade
    obtain ⟨safe,hsafe,hcanonical,-,hclaimed⟩ := removeFilesystemEntry_mutations hchanged
    obtain rfl : made = safe := Except.ok.inj (hmade.symm.trans hsafe)
    exact ⟨claim,hlease ▸ hholds,fun hlink =>
      covered_of_claimed hcanonical hholds.mode hholds.root (hnames.trans (hclaimed hlink))⟩

def linkedService : FilesystemService := ⟨linkedRoot,⟨true,true,true⟩⟩

/-- An acquisition by the only user of a new coordinator. -/
def granted : AcquisitionAnswers :=
  ⟨⟨false,0⟩,⟨false,0⟩,⟨false,0⟩,true,true,FilesystemResourceCoordinator.create,
    FilesystemResourceCoordinator.create⟩

theorem prepare_single (h : makeClaim fs ⟨some root,request,mode⟩ = .ok claim) :
    prepare true (fun _ => fs) ⟨false,0⟩ none [⟨some root,request,mode⟩] = .ok [claim] := by
  refine prepare_eq_ok_iff.mpr ⟨rfl,rfl,[claim],?_,(List.mergeSort_singleton claim).symm⟩
  simp only [makeClaims,h]

theorem acquire_alone (h : makeClaim fs ⟨some root,request,mode⟩ = .ok claim) :
    acquire fs root request mode none granted = (.ok 1,⟨[⟨1,[claim]⟩],1,2⟩) := by
  have hcheck : earlyCheck ⟨false,0⟩ none [⟨some root,request,mode⟩] FilesystemResourceCoordinator.create = .ok () := rfl
  simp only [acquire,acquireAll,granted,hcheck,prepare_single h]
  rfl

theorem acquire_granted (h : makeClaim fs ⟨some root,request,.exclusiveMutation⟩ = .ok claim) :
    acquire fs root request .exclusiveMutation none granted = (.ok 1,⟨[⟨1,[claim]⟩],1,2⟩) := acquire_alone h

/-- Three bytes from memory, and a system that grants everything. -/
def notesContent : FilesystemUploadContent := ⟨ascii "abc",3,none,none⟩

def grantedUpload : UploadAnswers where
  acquisition := granted
  materialization := ⟨.ok (Path.ofText (ascii "/tmp/.sparenode-body-0.tmp")),.ok (),.ok ()⟩
  atEntry := ⟨false,0⟩
  publication :=
    { lastError := .other 0
      sourceRefused := none
      sourceRegular := true
      sourceSize := 3
      suffix := fun _ => ascii "0"
      stageRefused := fun _ => none
      copied := (.ok (),ascii "abc")
      beforeFlush := ⟨false,0⟩
      flushRefused := none
      beforePublication := ⟨false,0⟩
      linkRefused := none
      descriptorLinkRefused := none
      cleanupRefused := none }
  exhausted := false

def notesClaim : ResourceClaim := ⟨linkedRoot.path,[ascii "notes"],.exclusiveMutation⟩
def docsClaim : ResourceClaim := ⟨linkedRoot.path,[ascii "docs"],.exclusiveMutation⟩

def notesStage : Name := ascii ".sparenode-upload-0.tmp"

theorem notes_upload : FilesystemService.upload linkedTree linkedService (ascii "notes") notesContent
    grantedUpload = ⟨.ok (),some 1,⟨[⟨1,[notesClaim]⟩],1,2⟩,[⟨[ascii "srv"],.created notesStage⟩,
      ⟨[ascii "srv"],.created (ascii "notes")⟩,⟨[ascii "srv"],.unlinked notesStage⟩],
      some (Path.ofText (ascii "/tmp/.sparenode-body-0.tmp"))⟩ := by
  have hacquire := @acquire_granted linkedTree linkedRoot (ascii "notes") notesClaim (by decide +kernel)
  have hsource : materialize notesContent grantedUpload.materialization =
      (.ok ⟨Path.ofText (ascii "/tmp/.sparenode-body-0.tmp"),3,true⟩,
        some (Path.ofText (ascii "/tmp/.sparenode-body-0.tmp"))) := rfl
  have hfinal : finalizeUpload linkedTree linkedRoot (ascii "notes")
      ⟨Path.ofText (ascii "/tmp/.sparenode-body-0.tmp"),3,true⟩ none ⟨false,0⟩ grantedUpload.publication false =
      (.ok (Path.absolute [ascii "srv",ascii "notes"]),[⟨[ascii "srv"],.created notesStage⟩,
        ⟨[ascii "srv"],.created (ascii "notes")⟩,⟨[ascii "srv"],.unlinked notesStage⟩]) := by decide +kernel
  rw [FilesystemService.upload,if_neg (by decide)]
  simp only [linkedService,notesContent,grantedUpload] at hacquire hfinal hsource ⊢
  simp only [hacquire,hsource,hfinal]

theorem remove_granted {mutations : List Mutation}
    (hclaim : makeClaim linkedTree ⟨some linkedRoot,request,.exclusiveMutation⟩ = .ok claim)
    (hremove : removeFilesystemEntry linkedTree linkedRoot request ⟨none,none,none⟩ = (.ok (),mutations)) :
    FilesystemService.remove linkedTree linkedService request 0 none granted ⟨none,none,none⟩ =
      ⟨.ok (),some 1,⟨[⟨1,[claim]⟩],1,2⟩,mutations,none⟩ := by
  rw [FilesystemService.remove,if_neg (by decide),if_neg (by decide)]
  simp only [linkedService,acquire_granted hclaim,hremove]

/-- The stage of an upload and the entry of a removed link are not at or below the claimed path. -/
theorem mutations_uncovered :
    (∃ mutation ∈ (FilesystemService.upload linkedTree linkedService (ascii "notes") notesContent
        grantedUpload).mutations,
      ∀ set ∈ (FilesystemService.upload linkedTree linkedService (ascii "notes") notesContent
        grantedUpload).registry.active, ∀ claim ∈ set.claims, ¬claim.absoluteNames <+: mutation.names) ∧
    ∃ mutation ∈ (FilesystemService.remove linkedTree linkedService (ascii "link") 0 none granted
        ⟨none,none,none⟩).mutations,
      ∀ set ∈ (FilesystemService.remove linkedTree linkedService (ascii "link") 0 none granted
        ⟨none,none,none⟩).registry.active, ∀ claim ∈ set.claims, ¬claim.absoluteNames <+: mutation.names := by
  have hlink := @remove_granted (ascii "link") docsClaim [⟨[ascii "srv"],.unlinked (ascii "link")⟩]
    (by decide +kernel) (by decide +kernel)
  rw [notes_upload,hlink]
  exact ⟨by decide +kernel,by decide +kernel⟩

/-- Removing an empty directory under a lease on it. -/
theorem mutations_covered_docs : ∃ claim, Holds linkedRoot (some 1) ⟨[⟨1,[docsClaim]⟩],1,2⟩ claim ∧
    Covered linkedTree linkedRoot claim ⟨[ascii "srv"],.unlinked (ascii "docs")⟩ := by
  have hdocs := @remove_granted (ascii "docs") docsClaim [⟨[ascii "srv"],.unlinked (ascii "docs")⟩]
    (by decide +kernel) (by decide +kernel)
  obtain ⟨claim,hholds,hcovered⟩ := (mutations_covered linkedTree linkedService (ascii "docs") notesContent
    grantedUpload 0 none granted none false ⟨none,none,none⟩).2.2 _ rfl
    ⟨[ascii "srv"],.unlinked (ascii "docs")⟩ (by rw [hdocs]; simp)
  rw [hdocs] at hholds
  refine ⟨claim,hholds,hcovered ?_⟩
  intro target htarget
  have hkind : linkedTree.kind [ascii "srv",ascii "docs"] = some .directory := by decide +kernel
  have hnames : linkedTree.kind [ascii "srv",ascii "docs"] = some (.symlink target) := htarget
  rw [hkind] at hnames
  cases hnames

end SpareNode.Application
