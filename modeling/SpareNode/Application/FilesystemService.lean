import SpareNode.Application.FilesystemResourceCoordinator
import SpareNode.Filesystem.EntryMutations

/-! # The filesystem service

The mutations of one location: a check of the permissions, a lease on the requested path for
exclusive mutation, and the operation on the filesystem while the lease is held. A run keeps
what it has changed, the identifier of its lease, and the registry as the lease left it.
-/
namespace SpareNode.Application
open LexicalPath FileTree Filesystem Concurrency Storage FilesystemResourceCoordinator

structure LocationPermissions where
  allowRead : Bool
  allowWrite : Bool
  allowDelete : Bool
deriving DecidableEq, Repr

structure FilesystemService where
  root : SharedRoot
  permissions : LocationPermissions

/-- A failure with its category and, perhaps, what failed below it. -/
structure ServiceError (Code Detail : Type) where
  code : Code
  detail : Option Detail
deriving DecidableEq, Repr

inductive FilesystemUploadErrorCode where
  | forbidden | invalidUpload | coordinationFailed | temporaryFileFailed | uploadFinalizationFailed
  | resourceAllocationFailed
deriving DecidableEq, Repr

inductive FilesystemUploadErrorDetail where
  | access (error : FilesystemResourceAccessError)
  | temporaryFile (error : TemporaryFileError)
  | finalization (error : UploadFinalizationError)
deriving DecidableEq, Repr

inductive FilesystemDirectoryCreationErrorCode where
  | forbidden | contentNotAllowed | coordinationFailed | directoryCreationFailed
  | resourceAllocationFailed
deriving DecidableEq, Repr

inductive FilesystemDirectoryCreationErrorDetail where
  | access (error : FilesystemResourceAccessError)
  | creation (error : DirectoryCreationError)
deriving DecidableEq, Repr

inductive FilesystemRemovalErrorCode where
  | forbidden | contentNotAllowed | coordinationFailed | filesystemRemovalFailed
  | resourceAllocationFailed
deriving DecidableEq, Repr

inductive FilesystemRemovalErrorDetail where
  | access (error : FilesystemResourceAccessError)
  | removal (error : FilesystemEntryRemovalError)
deriving DecidableEq, Repr

abbrev FilesystemUploadError := ServiceError FilesystemUploadErrorCode FilesystemUploadErrorDetail
abbrev FilesystemDirectoryCreationError :=
  ServiceError FilesystemDirectoryCreationErrorCode FilesystemDirectoryCreationErrorDetail
abbrev FilesystemRemovalError := ServiceError FilesystemRemovalErrorCode FilesystemRemovalErrorDetail

/-- An invalid path is reported as the operation itself would report it. -/
def coordinationError {Code Detail : Type} (operationFailed coordinationFailed : Code)
    (invalidDestination : SafePathError → Detail) (access : FilesystemResourceAccessError → Detail)
    (error : FilesystemResourceAccessError) : ServiceError Code Detail :=
  match error.code,error.pathError with
  | .invalidPath,some pathError => ⟨operationFailed,some (invalidDestination pathError)⟩
  | _,_ => ⟨coordinationFailed,some (access error)⟩

def uploadCoordinationError : FilesystemResourceAccessError → FilesystemUploadError :=
  coordinationError .uploadFinalizationFailed .coordinationFailed
    (fun pathError => .finalization ⟨.invalidDestination,some pathError,none⟩) .access

def creationCoordinationError : FilesystemResourceAccessError → FilesystemDirectoryCreationError :=
  coordinationError .directoryCreationFailed .coordinationFailed
    (fun pathError => .creation ⟨.invalidDestination,some pathError,none⟩) .access

def removalCoordinationError : FilesystemResourceAccessError → FilesystemRemovalError :=
  coordinationError .filesystemRemovalFailed .coordinationFailed
    (fun pathError => .removal ⟨.invalidDestination,some pathError,none⟩) .access

/-- What an acquisition meets: the moments of its checks, whether memory suffices, and the
registry at its two locked sections. -/
structure AcquisitionAnswers where
  early : Moment
  middle : Moment
  late : Moment
  preparing : Bool
  registering : Bool
  before : FilesystemResourceCoordinatorState
  after : FilesystemResourceCoordinatorState

def acquire (fs : Tree) (root : SharedRoot) (requestedPath : Bytes)
    (mode : FilesystemResourceAccessMode) (deadline : Option ℤ) (answers : AcquisitionAnswers) :
    Except FilesystemResourceAccessError ℕ × FilesystemResourceCoordinatorState :=
  acquireAll answers.early answers.middle answers.late answers.preparing answers.registering
    (fun _ => fs) deadline [⟨some root,requestedPath,mode⟩] answers.before answers.after

/-- One call of a mutating operation, up to the release of its lease. -/
structure MutationRun (ε : Type) where
  result : Except ε Unit
  lease : Option ℕ
  registry : FilesystemResourceCoordinatorState
  mutations : List Mutation
  temporary : Option Path

/-- Decoded upload content; without an artifact it is all in memory. -/
structure FilesystemUploadContent where
  memory : Bytes
  size : ℕ
  artifact : Option TemporaryFile
  deadline : Option ℤ

/-- What becomes of the private file that holds content from memory. -/
structure MaterializationAnswers where
  created : Except TemporaryFileError Path
  written : Except TemporaryFileError Unit
  completed : Except TemporaryFileError Unit

/-- The source of the publication, and the path of a file made for it. -/
def materialize (content : FilesystemUploadContent) (answers : MaterializationAnswers) :
    Except FilesystemUploadError TemporaryFile × Option Path :=
  match content.artifact with
  | some artifact => (.ok artifact,none)
  | none =>
    if content.size ≠ content.memory.length then (.error ⟨.invalidUpload,none⟩,none)
    else
      match answers.created with
      | .error e => (.error ⟨.temporaryFileFailed,some (.temporaryFile e)⟩,none)
      | .ok path =>
        match answers.written with
        | .error e => (.error ⟨.temporaryFileFailed,some (.temporaryFile e)⟩,some path)
        | .ok () =>
          match answers.completed with
          | .error e => (.error ⟨.temporaryFileFailed,some (.temporaryFile e)⟩,some path)
          | .ok () => (.ok ⟨path,content.memory.length,true⟩,some path)

structure UploadAnswers where
  acquisition : AcquisitionAnswers
  materialization : MaterializationAnswers
  atEntry : Moment
  publication : PublicationAnswers
  exhausted : Bool

namespace FilesystemService

def upload (fs : Tree) (service : FilesystemService) (requestedPath : Bytes)
    (content : FilesystemUploadContent) (answers : UploadAnswers) : MutationRun FilesystemUploadError :=
  if !service.permissions.allowWrite then
    ⟨.error ⟨.forbidden,none⟩,none,answers.acquisition.after,[],none⟩
  else
    match acquire fs service.root requestedPath .exclusiveMutation content.deadline answers.acquisition with
    | (.error e,registry) => ⟨.error (uploadCoordinationError e),none,registry,[],none⟩
    | (.ok lease,registry) =>
      match materialize content answers.materialization with
      | (.error e,temporary) => ⟨.error e,some lease,registry,[],temporary⟩
      | (.ok source,temporary) =>
        match finalizeUpload fs service.root requestedPath source content.deadline answers.atEntry
          answers.publication answers.exhausted with
        | (.error e,mutations) =>
          ⟨.error ⟨.uploadFinalizationFailed,some (.finalization e)⟩,some lease,registry,mutations,temporary⟩
        | (.ok _,mutations) => ⟨.ok (),some lease,registry,mutations,temporary⟩

def createDirectory (fs : Tree) (service : FilesystemService) (requestedPath : Bytes) (contentSize : ℕ)
    (deadline : Option ℤ) (acquisition : AcquisitionAnswers) (refused : Option Errno) (exhausted : Bool) :
    MutationRun FilesystemDirectoryCreationError :=
  if !service.permissions.allowWrite then ⟨.error ⟨.forbidden,none⟩,none,acquisition.after,[],none⟩
  else if contentSize ≠ 0 then ⟨.error ⟨.contentNotAllowed,none⟩,none,acquisition.after,[],none⟩
  else
    match acquire fs service.root requestedPath .exclusiveMutation deadline acquisition with
    | (.error e,registry) => ⟨.error (creationCoordinationError e),none,registry,[],none⟩
    | (.ok lease,registry) =>
      match Filesystem.createDirectory fs service.root requestedPath refused exhausted with
      | (.error e,mutations) =>
        ⟨.error ⟨.directoryCreationFailed,some (.creation e)⟩,some lease,registry,mutations,none⟩
      | (.ok _,mutations) => ⟨.ok (),some lease,registry,mutations,none⟩

def remove (fs : Tree) (service : FilesystemService) (requestedPath : Bytes) (contentSize : ℕ)
    (deadline : Option ℤ) (acquisition : AcquisitionAnswers) (answers : RemovalAnswers) :
    MutationRun FilesystemRemovalError :=
  if !service.permissions.allowDelete then ⟨.error ⟨.forbidden,none⟩,none,acquisition.after,[],none⟩
  else if contentSize ≠ 0 then ⟨.error ⟨.contentNotAllowed,none⟩,none,acquisition.after,[],none⟩
  else
    match acquire fs service.root requestedPath .exclusiveMutation deadline acquisition with
    | (.error e,registry) => ⟨.error (removalCoordinationError e),none,registry,[],none⟩
    | (.ok lease,registry) =>
      match removeFilesystemEntry fs service.root requestedPath answers with
      | (.error e,mutations) =>
        ⟨.error ⟨.filesystemRemovalFailed,some (.removal e)⟩,some lease,registry,mutations,none⟩
      | (.ok (),mutations) => ⟨.ok (),some lease,registry,mutations,none⟩

variable {fs : Tree} {service : FilesystemService} {requestedPath : Bytes} {mutation : Mutation}
variable {contentSize : ℕ} {deadline : Option ℤ} {acquisition : AcquisitionAnswers}

theorem upload_mutations {content : FilesystemUploadContent} {answers : UploadAnswers}
    (h : mutation ∈ (upload fs service requestedPath content answers).mutations) :
    ∃ lease source, acquire fs service.root requestedPath .exclusiveMutation content.deadline
        answers.acquisition = (.ok lease,(upload fs service requestedPath content answers).registry) ∧
      (upload fs service requestedPath content answers).lease = some lease ∧
      mutation ∈ (finalizeUpload fs service.root requestedPath source content.deadline answers.atEntry
        answers.publication answers.exhausted).2 := by
  revert h
  unfold upload
  split
  · simp
  · split
    · simp
    · rename_i lease registry hacquire
      split
      · simp
      · rename_i source temporary hsource
        split
        · rename_i e mutations hfinal
          exact fun h => ⟨lease,source,hacquire,rfl,by rw [hfinal]; exact h⟩
        · rename_i path mutations hfinal
          exact fun h => ⟨lease,source,hacquire,rfl,by rw [hfinal]; exact h⟩

theorem createDirectory_mutations {refused : Option Errno} {exhausted : Bool}
    (h : mutation ∈ (createDirectory fs service requestedPath contentSize deadline acquisition
      refused exhausted).mutations) :
    ∃ lease, acquire fs service.root requestedPath .exclusiveMutation deadline acquisition =
        (.ok lease,(createDirectory fs service requestedPath contentSize deadline acquisition
          refused exhausted).registry) ∧
      (createDirectory fs service requestedPath contentSize deadline acquisition refused exhausted).lease =
        some lease ∧
      mutation ∈ (Filesystem.createDirectory fs service.root requestedPath refused exhausted).2 := by
  revert h
  unfold createDirectory
  split
  · simp
  · split
    · simp
    · split
      · simp
      · rename_i lease registry hacquire
        split
        · rename_i e mutations hcreate
          exact fun h => ⟨lease,hacquire,rfl,by rw [hcreate]; exact h⟩
        · rename_i path mutations hcreate
          exact fun h => ⟨lease,hacquire,rfl,by rw [hcreate]; exact h⟩

theorem remove_mutations {answers : RemovalAnswers}
    (h : mutation ∈ (remove fs service requestedPath contentSize deadline acquisition answers).mutations) :
    ∃ lease, acquire fs service.root requestedPath .exclusiveMutation deadline acquisition =
        (.ok lease,(remove fs service requestedPath contentSize deadline acquisition answers).registry) ∧
      (remove fs service requestedPath contentSize deadline acquisition answers).lease = some lease ∧
      mutation ∈ (removeFilesystemEntry fs service.root requestedPath answers).2 := by
  revert h
  unfold remove
  split
  · simp
  · split
    · simp
    · split
      · simp
      · rename_i lease registry hacquire
        split
        · rename_i e mutations hremove
          exact fun h => ⟨lease,hacquire,rfl,by rw [hremove]; exact h⟩
        · rename_i mutations hremove
          exact fun h => ⟨lease,hacquire,rfl,by rw [hremove]; exact h⟩

end FilesystemService
end SpareNode.Application
