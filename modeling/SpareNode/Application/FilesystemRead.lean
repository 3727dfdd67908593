import SpareNode.Application.FilesystemService
import SpareNode.Filesystem.DirectoryListing
import SpareNode.Filesystem.FileReadStream

/-! # Reading a location

`FilesystemService::read`: a lease on the requested path for shared reading, then the listing of a directory
or the opening of a file. An opened file keeps the lease, and it stops being read when the operation that
reads it or the request that opened it is interrupted.
-/
namespace SpareNode.Application
open LexicalPath FileTree Filesystem Concurrency FilesystemResourceCoordinator

inductive FilesystemReadErrorCode where
  | forbidden | coordinationFailed | directoryListingFailed | fileReadFailed | resourceAllocationFailed
deriving DecidableEq, Repr

inductive FilesystemReadErrorDetail where
  | access (error : FilesystemResourceAccessError)
  | listing (error : DirectoryListingError)
  | fileRead (error : FileReadError)
deriving DecidableEq, Repr

abbrev FilesystemReadError := ServiceError FilesystemReadErrorCode FilesystemReadErrorDetail

def readCoordinationError : FilesystemResourceAccessError → FilesystemReadError :=
  coordinationError .directoryListingFailed .coordinationFailed
    (fun pathError => .listing ⟨.invalidPath,none,some pathError.code⟩) .access

/-- A stream with the lease that it is read under and the deadline of the request that opened it. -/
structure FilesystemFileRead (fs : Tree) where
  stream : FileReadStream fs
  lease : ℕ
  deadline : Option ℤ

/-- What one read of a file meets: the moments of the checks of both options, a stop that is requested when
the stream begins to read, and the native read. -/
structure FileReadAnswers where
  current : Moment
  retained : Moment
  stopRequested : Bool
  native : NativeRead

namespace FilesystemFileRead

def size {fs : Tree} (file : FilesystemFileRead fs) : ℕ := file.stream.size

def read {fs : Tree} (file : FilesystemFileRead fs) (requested : ℕ) (deadline : Option ℤ) (answers : FileReadAnswers) :
    Except FileReadError Bytes × FilesystemFileRead fs :=
  if interruptionStatus answers.current deadline ≠ .none ∨ interruptionStatus answers.retained file.deadline ≠ .none then
    (.error ⟨.cancelled,none,none⟩,file)
  else
    let (result,stream) := file.stream.read requested answers.stopRequested answers.native
    (result,{ file with stream })

end FilesystemFileRead

inductive FilesystemReadResource (fs : Tree) where
  | listing (entries : List DirectoryListingEntry)
  | file (read : FilesystemFileRead fs)

/-- One call of `read`, with the lease that it was granted. A file keeps the lease. -/
structure ReadRun (fs : Tree) where
  result : Except FilesystemReadError (FilesystemReadResource fs)
  lease : Option ℕ
  registry : FilesystemResourceCoordinatorState

namespace FilesystemService

/-- `FilesystemService::read`; a file is opened in a tree that may be another by then. -/
def read (fs opened : Tree) (service : FilesystemService) (requestedPath : Bytes) (deadline : Option ℤ)
    (acquisition : AcquisitionAnswers) (host : DirectoryHost fs) (answers : OpenAnswers) : ReadRun opened :=
  if !service.permissions.allowRead then ⟨.error ⟨.forbidden,none⟩,none,acquisition.after⟩
  else
    match acquire fs service.root requestedPath .sharedRead deadline acquisition with
    | (.error e,registry) => ⟨.error (readCoordinationError e),none,registry⟩
    | (.ok lease,registry) =>
      match listDirectory host service.root requestedPath with
      | .ok entries => ⟨.ok (.listing entries),some lease,registry⟩
      | .error e =>
        if e.code ≠ .notDirectory then
          ⟨.error ⟨.directoryListingFailed,some (.listing e)⟩,some lease,registry⟩
        else
          match FileReadStream.openStream fs opened service.root requestedPath answers with
          | .error e => ⟨.error ⟨.fileReadFailed,some (.fileRead e)⟩,some lease,registry⟩
          | .ok stream => ⟨.ok (.file ⟨stream,lease,deadline⟩),some lease,registry⟩

variable {fs opened : Tree} {service : FilesystemService} {requestedPath : Bytes} {deadline : Option ℤ}
variable {acquisition : AcquisitionAnswers} {host : DirectoryHost fs} {answers : OpenAnswers}

/-- A file is opened under the lease that it keeps. -/
theorem read_file {file : FilesystemFileRead opened}
    (h : (read fs opened service requestedPath deadline acquisition host answers).result = .ok (.file file)) :
    service.permissions.allowRead = true ∧
      acquire fs service.root requestedPath .sharedRead deadline acquisition =
        (.ok file.lease,(read fs opened service requestedPath deadline acquisition host answers).registry) ∧
      FileReadStream.openStream fs opened service.root requestedPath answers = .ok file.stream ∧
      file.deadline = deadline := by
  revert h
  unfold read
  split
  · simp
  · rename_i hallowed
    split
    · simp
    · rename_i lease registry hacquire
      split
      · simp
      · split
        · simp
        · split
          · simp
          · rename_i stream hstream
            intro h
            cases h
            exact ⟨by simpa using hallowed,hacquire,hstream,rfl⟩

theorem read_listing {entries : List DirectoryListingEntry}
    (h : (read fs opened service requestedPath deadline acquisition host answers).result = .ok (.listing entries)) :
    listDirectory host service.root requestedPath = .ok entries := by
  revert h
  unfold read
  split
  · simp
  · split
    · simp
    · split
      · rename_i listed hlisted
        intro h
        cases h
        exact hlisted
      · split
        · simp
        · split <;> simp

end FilesystemService

section Reading
variable {fs : Tree} {file file' : FilesystemFileRead fs} {requested : ℕ} {deadline : Option ℤ}
variable {answers : FileReadAnswers}

/-- A read gives bytes of the file at the position and moves it, or leaves everything as it was. -/
theorem FilesystemFileRead.read_cases {result : Except FileReadError Bytes}
    (h : file.read requested deadline answers = (result,file')) :
    (∃ bytes, result = .ok bytes ∧ FileReadStream.Reads file.stream requested answers.native bytes file'.stream ∧
      file' = { file with stream := file'.stream }) ∨
    (∃ error, result = .error error ∧ file' = file) := by
  unfold FilesystemFileRead.read at h
  split at h
  · obtain ⟨rfl,rfl⟩ := Prod.mk.inj h
    exact Or.inr ⟨_,rfl,rfl⟩
  · cases hread : file.stream.read requested answers.stopRequested answers.native with
    | mk read stream =>
      rw [hread] at h
      obtain ⟨rfl,rfl⟩ := Prod.mk.inj h
      cases read with
      | ok bytes => exact Or.inl ⟨bytes,rfl,FileReadStream.read_ok hread,rfl⟩
      | error error =>
        refine Or.inr ⟨error,rfl,?_⟩
        rw [FileReadStream.read_error hread]

end Reading
end SpareNode.Application
