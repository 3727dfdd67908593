import SpareNode.Filesystem.ConfinedDirectory
import SpareNode.Foundation.Interruption
import SpareNode.Storage.TemporaryFile

/-! # Upload finalization

`finalize_upload` of the Linux build, on the entries of the opened destination directory. The
source is copied to a private sibling under a reserved name, the sibling is linked to the
destination name without replacing anything, and its own name is unlinked whatever happens.
The system may refuse each call.
-/
namespace SpareNode.Filesystem
open LexicalPath FileTree Concurrency Storage

inductive EntryChange where
  | created (name : Name)
  | unlinked (name : Name)
deriving DecidableEq, Repr

def EntryChange.name : EntryChange → Name
  | .created name => name
  | .unlinked name => name

/-- The entries of an open directory, and what has been changed of them, oldest first. -/
structure DirectoryEntries (α : Type) where
  entry : Name → Option α
  changes : List EntryChange

namespace DirectoryEntries
variable {α : Type}

/-- A call that makes an entry and fails on one that exists. -/
def create (refused : Option Errno) (name : Name) (object : α) (entries : DirectoryEntries α) :
    Except Errno (DirectoryEntries α) :=
  match refused with
  | some error => .error error
  | none =>
    if (entries.entry name).isSome then .error .alreadyExists
    else .ok ⟨Function.update entries.entry name (some object),entries.changes ++ [.created name]⟩

/-- What is written to the object behind an entry. -/
def write (name : Name) (object : α) (entries : DirectoryEntries α) : DirectoryEntries α :=
  { entries with entry := Function.update entries.entry name (some object) }

def erase (name : Name) (entries : DirectoryEntries α) : DirectoryEntries α :=
  ⟨Function.update entries.entry name none,entries.changes ++ [.unlinked name]⟩

end DirectoryEntries

inductive UploadFinalizationErrorCode where
  | invalidSource | invalidDestination | parentUnavailable | destinationExists | sourceReadFailed
  | stagingFailed | stagingWriteFailed | stagingFlushFailed | publishFailed | cancelled
  | deadlineExceeded | resourceFailure
deriving DecidableEq, Repr

structure UploadFinalizationError where
  code : UploadFinalizationErrorCode
  pathError : Option SafePathError
  systemError : Option Errno
deriving DecidableEq, Repr

def maximumUploadStageAttempts : ℕ := 100

structure PublicationAnswers where
  lastError : Errno
  sourceRefused : Option Errno
  sourceRegular : Bool
  sourceSize : ℤ
  suffix : ℕ → Bytes
  stageRefused : ℕ → Option Errno
  copied : Except UploadFinalizationError Unit × Bytes
  beforeFlush : Moment
  flushRefused : Option Errno
  beforePublication : Moment
  linkRefused : Option Errno
  descriptorLinkRefused : Option Errno
  cleanupRefused : Option Errno

def uploadInterruption (moment : Moment) (deadline : Option ℤ) : Option UploadFinalizationError :=
  match interruptionStatus moment deadline with
  | .cancelled => some ⟨.cancelled,none,none⟩
  | .deadlineExceeded => some ⟨.deadlineExceeded,none,none⟩
  | .none => none

variable {α : Type} (file : Bytes → α) (answers : PublicationAnswers)

def stageName (attempt : ℕ) : Name := uploadStagePrefix ++ answers.suffix attempt ++ ascii ".tmp"

/-- The loop of `create_stage`, by the attempts that are left. -/
def createStage : ℕ → DirectoryEntries α → Except UploadFinalizationError Name × DirectoryEntries α
  | 0,entries => (.error ⟨.stagingFailed,none,some .alreadyExists⟩,entries)
  | left + 1,entries =>
    let attempt := maximumUploadStageAttempts - (left + 1)
    match entries.create (answers.stageRefused attempt) (stageName answers attempt) (file []) with
    | .ok staged => (.ok (stageName answers attempt),staged)
    | .error .alreadyExists => createStage left entries
    | .error error => (.error ⟨.stagingFailed,none,some error⟩,entries)

/-- The stage is linked by its descriptor, or through `/proc` where that is refused. -/
def publishStage (written : Bytes) (nativeName : Name) (entries : DirectoryEntries α) :
    Except UploadFinalizationError Unit × DirectoryEntries α :=
  match entries.create answers.linkRefused nativeName (file written) with
  | .ok published => (.ok (),published)
  | .error .alreadyExists => (.error ⟨.destinationExists,none,some .alreadyExists⟩,entries)
  | .error _ =>
    match entries.create answers.descriptorLinkRefused nativeName (file written) with
    | .ok published => (.ok (),published)
    | .error .alreadyExists => (.error ⟨.destinationExists,none,some .alreadyExists⟩,entries)
    | .error error => (.error ⟨.publishFailed,none,some error⟩,entries)

/-- What follows the creation of the stage, before its cleanup. -/
def fillAndPublish (deadline : Option ℤ) (stage nativeName : Name) (entries : DirectoryEntries α) :
    Except UploadFinalizationError Unit × DirectoryEntries α :=
  let filled := entries.write stage (file answers.copied.2)
  match answers.copied.1 with
  | .error e => (.error e,filled)
  | .ok () =>
    match uploadInterruption answers.beforeFlush deadline with
    | some stopped => (.error stopped,filled)
    | none =>
      match answers.flushRefused with
      | some error => (.error ⟨.stagingFlushFailed,none,some error⟩,filled)
      | none =>
        match uploadInterruption answers.beforePublication deadline with
        | some stopped => (.error stopped,filled)
        | none => publishStage file answers answers.copied.2 nativeName filled

/-- The destructor of `StageCleanup`. -/
def cleanUp (stage : Name) (entries : DirectoryEntries α) : DirectoryEntries α :=
  match answers.cleanupRefused with
  | some _ => entries
  | none => entries.erase stage

def publishConfinedUpload (source : TemporaryFile) (nativeName : Name) (deadline : Option ℤ)
    (entries : DirectoryEntries α) : Except UploadFinalizationError Unit × DirectoryEntries α :=
  match answers.sourceRefused with
  | some error => (.error ⟨.sourceReadFailed,none,some error⟩,entries)
  | none =>
    if !answers.sourceRegular || answers.sourceSize < 0 || answers.sourceSize ≠ source.size then
      (.error ⟨.sourceReadFailed,none,some answers.lastError⟩,entries)
    else
      match createStage file answers maximumUploadStageAttempts entries with
      | (.error e,entries) => (.error ⟨.stagingFailed,none,e.systemError⟩,entries)
      | (.ok stage,entries) =>
        let (result,published) := fillAndPublish file answers deadline stage nativeName entries
        (result,cleanUp answers stage published)

/-- A change of an entry, with the names of the directory that holds it. -/
structure Mutation where
  directory : List Name
  change : EntryChange
deriving DecidableEq, Repr

/-- The canonical path of the parent and the entry name. -/
def Mutation.names (mutation : Mutation) : List Name := mutation.directory ++ [mutation.change.name]

/-- The entries of an opened directory of the tree. -/
def DirectoryHandle.entries {fs : Tree} (handle : DirectoryHandle fs) : DirectoryEntries Kind :=
  ⟨fun name => fs.kind (handle.names ++ [name]),[]⟩

def mutationsOf {fs : Tree} (handle : DirectoryHandle fs) (entries : DirectoryEntries Kind) :
    List Mutation :=
  entries.changes.map (fun change => ⟨handle.names,change⟩)

/-- A path that names no entry below the root. -/
def invalidDestination (sharedRoot : SharedRoot) (path : Path) : Bool :=
  path = sharedRoot.path || path.filename.isEmpty || path.filename = dot || path.filename = dotDot

/-- The path that is returned is a copy, for which the memory can be exhausted. -/
def finalizeUpload (fs : Tree) (sharedRoot : SharedRoot) (requestedPath : Bytes) (source : TemporaryFile)
    (deadline : Option ℤ) (atEntry : Moment) (answers : PublicationAnswers) (exhausted : Bool) :
    Except UploadFinalizationError Path × List Mutation :=
  if !source.completed || source.path.isEmpty then (.error ⟨.invalidSource,none,none⟩,[])
  else
    match uploadInterruption atEntry deadline with
    | some stopped => (.error stopped,[])
    | none =>
      match SafePath.resolve fs sharedRoot requestedPath with
      | .error e => (.error ⟨.invalidDestination,some e,none⟩,[])
      | .ok destination =>
        let path := destination.path
        if invalidDestination sharedRoot path then (.error ⟨.invalidDestination,none,none⟩,[])
        else
          match openConfinedDirectory fs sharedRoot.path path.parentPath with
          | .error e => (.error ⟨.parentUnavailable,none,some e⟩,[])
          | .ok parent =>
            match publishConfinedUpload (fun _ => Kind.regular) answers source path.filename deadline
              (DirectoryHandle.entries parent.directory) with
            | (.error e,entries) => (.error e,mutationsOf parent.directory entries)
            | (.ok (),entries) =>
              (if exhausted then .error ⟨.resourceFailure,none,none⟩ else .ok path,
                mutationsOf parent.directory entries)

variable {file answers}
variable {entries entries' : DirectoryEntries α} {name nativeName stage : Name} {object : α}
variable {deadline : Option ℤ}

/-- A directory has been changed only at reserved names and at the native name. -/
def ChangedOnlyAt (nativeName : Name) (changes : List EntryChange) : Prop :=
  ∀ change ∈ changes, isUploadStageComponent change.name = true ∨ change = .created nativeName

theorem isUploadStageComponent_append (rest : Bytes) :
    isUploadStageComponent (uploadStagePrefix ++ rest) = true :=
  List.isPrefixOf_iff_prefix.mpr (List.prefix_append _ _)

theorem stageName_reserved (attempt : ℕ) :
    isUploadStageComponent (stageName answers attempt) = true := by
  rw [stageName,List.append_assoc]
  exact isUploadStageComponent_append _

theorem create_changes {refused : Option Errno} (h : entries.create refused name object = .ok entries') :
    entries'.changes = entries.changes ++ [.created name] := by
  unfold DirectoryEntries.create at h
  split at h
  · cases h
  · split at h <;> cases h
    rfl

theorem ChangedOnlyAt.append {changes more : List EntryChange} (h : ChangedOnlyAt nativeName changes)
    (hmore : ChangedOnlyAt nativeName more) : ChangedOnlyAt nativeName (changes ++ more) := by
  intro change hchange
  rcases List.mem_append.mp hchange with hchange | hchange
  · exact h change hchange
  · exact hmore change hchange

theorem createStage_changes {left : ℕ} {result : Except UploadFinalizationError Name}
    (h : createStage file answers left entries = (result,entries')) :
    (∃ e, result = .error e ∧ entries' = entries) ∨
      ∃ stage, result = .ok stage ∧ isUploadStageComponent stage = true ∧
        entries'.changes = entries.changes ++ [.created stage] := by
  induction left with
  | zero =>
    obtain ⟨rfl,rfl⟩ := Prod.mk.inj h
    exact Or.inl ⟨_,rfl,rfl⟩
  | succ left ih =>
    rw [createStage] at h
    split at h
    · rename_i staged hcreate
      obtain ⟨rfl,rfl⟩ := Prod.mk.inj h
      exact Or.inr ⟨_,rfl,stageName_reserved _,create_changes hcreate⟩
    · exact ih h
    · obtain ⟨rfl,rfl⟩ := Prod.mk.inj h
      exact Or.inl ⟨_,rfl,rfl⟩

/-- A publication that succeeds has created the native name, and one that fails has created nothing. -/
theorem publishStage_changes {written : Bytes} {result : Except UploadFinalizationError Unit}
    (h : publishStage file answers written nativeName entries = (result,entries')) :
    ((∃ e, result = .error e) ∧ entries'.changes = entries.changes) ∨
      (result = .ok () ∧ entries'.changes = entries.changes ++ [.created nativeName]) := by
  unfold publishStage at h
  split at h
  · rename_i published hcreate
    obtain ⟨rfl,rfl⟩ := Prod.mk.inj h
    exact Or.inr ⟨rfl,create_changes hcreate⟩
  · obtain ⟨rfl,rfl⟩ := Prod.mk.inj h
    exact Or.inl ⟨⟨_,rfl⟩,rfl⟩
  · split at h
    · rename_i published hcreate
      obtain ⟨rfl,rfl⟩ := Prod.mk.inj h
      exact Or.inr ⟨rfl,create_changes hcreate⟩
    · obtain ⟨rfl,rfl⟩ := Prod.mk.inj h
      exact Or.inl ⟨⟨_,rfl⟩,rfl⟩
    · obtain ⟨rfl,rfl⟩ := Prod.mk.inj h
      exact Or.inl ⟨⟨_,rfl⟩,rfl⟩

theorem fillAndPublish_changes {result : Except UploadFinalizationError Unit}
    (h : fillAndPublish file answers deadline stage nativeName entries = (result,entries')) :
    ((∃ e, result = .error e) ∧ entries'.changes = entries.changes) ∨
      (result = .ok () ∧ entries'.changes = entries.changes ++ [.created nativeName]) := by
  unfold fillAndPublish at h
  dsimp only at h
  split at h
  · obtain ⟨rfl,rfl⟩ := Prod.mk.inj h
    exact Or.inl ⟨⟨_,rfl⟩,rfl⟩
  · split at h
    · obtain ⟨rfl,rfl⟩ := Prod.mk.inj h
      exact Or.inl ⟨⟨_,rfl⟩,rfl⟩
    · split at h
      · obtain ⟨rfl,rfl⟩ := Prod.mk.inj h
        exact Or.inl ⟨⟨_,rfl⟩,rfl⟩
      · split at h
        · obtain ⟨rfl,rfl⟩ := Prod.mk.inj h
          exact Or.inl ⟨⟨_,rfl⟩,rfl⟩
        · have hpublish := publishStage_changes h
          exact hpublish

/-- A publication changes entries at reserved names, and creates the native name at most. -/
theorem publishConfinedUpload_changes {source : TemporaryFile}
    {result : Except UploadFinalizationError Unit} (hnone : entries.changes = [])
    (h : publishConfinedUpload file answers source nativeName deadline entries = (result,entries')) :
    ChangedOnlyAt nativeName entries'.changes := by
  have hnothing : ChangedOnlyAt nativeName entries.changes := by simp [hnone,ChangedOnlyAt]
  have hpublished : ChangedOnlyAt nativeName [.created nativeName] := by simp [ChangedOnlyAt]
  unfold publishConfinedUpload at h
  split at h
  · obtain ⟨-,rfl⟩ := Prod.mk.inj h
    exact hnothing
  · split at h
    · obtain ⟨-,rfl⟩ := Prod.mk.inj h
      exact hnothing
    · split at h
      · rename_i e left hstage
        obtain ⟨-,rfl⟩ := Prod.mk.inj h
        rcases createStage_changes hstage with ⟨_,-,rfl⟩ | ⟨_,hok,-⟩
        · exact hnothing
        · cases hok
      · rename_i stage staged hstage
        rcases createStage_changes hstage with ⟨_,herror,-⟩ | ⟨made,hok,hreserved,hstaged⟩
        · cases herror
        · cases hok
          have hcreated : ChangedOnlyAt nativeName staged.changes := by
            rw [hstaged]
            exact hnothing.append (by simp [ChangedOnlyAt,EntryChange.name,hreserved])
          have hfilled : ChangedOnlyAt nativeName
              (fillAndPublish file answers deadline stage nativeName staged).2.changes := by
            rcases fillAndPublish_changes (Prod.eta _).symm with ⟨-,hsame⟩ | ⟨-,hmore⟩
            · rw [hsame]
              exact hcreated
            · rw [hmore]
              exact hcreated.append hpublished
          obtain ⟨-,rfl⟩ := Prod.mk.inj h
          unfold cleanUp
          split
          · exact hfilled
          · exact hfilled.append (by simp [ChangedOnlyAt,EntryChange.name,hreserved])

end SpareNode.Filesystem
