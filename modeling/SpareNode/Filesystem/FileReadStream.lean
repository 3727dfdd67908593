import SpareNode.Filesystem.ConfinedDirectory
import SpareNode.Library.FileHandle

/-! # File streams

`FileReadStream` of the Linux build. The request is resolved to a safe path, and root and file are then
opened; in between the tree may change. What the system reports for the opened file must lie inside what
it reports for the opened root. A stream reads from its own position, whatever happens to the file.
-/
namespace SpareNode.Filesystem
open LexicalPath FileTree

inductive FileReadErrorCode where
  | invalidPath | notFound | notRegularFile | permissionDenied | outsideSharedRoot | filesystemFailure
  | cancelled | resourceAllocationFailed
deriving DecidableEq, Repr

def FileReadErrorCode.value : FileReadErrorCode → ℤ
  | .invalidPath => 0
  | .notFound => 1
  | .notRegularFile => 2
  | .permissionDenied => 3
  | .outsideSharedRoot => 4
  | .filesystemFailure => 5
  | .cancelled => 6
  | .resourceAllocationFailed => 7

structure FileReadError where
  code : FileReadErrorCode
  systemError : Option Errno
  pathError : Option SafePathErrorCode
deriving DecidableEq, Repr

/-- The names that are reported for an opened object. -/
def reportedPath (names : List Name) : Path := (Path.absolute names).lexicallyNormal

/-- The system calls of opening a stream that may be refused on their own account. -/
inductive OpenStep where
  | root | rootPath | file | filePath | status | statusFlags | blocking
deriving DecidableEq, Repr

/-- What opening a stream meets besides the tree of files. -/
structure OpenAnswers where
  refused : OpenStep → Option Errno
  attributes : List Name → Attributes

/-- One native read: whether a stop was requested after each interruption, the count that follows, and
what the file holds at that time. -/
structure NativeRead where
  interruptions : List Bool
  outcome : Except Errno ℕ
  contents : Bytes

/-- An open regular file, with the size that was captured and the position of the descriptor. -/
structure FileReadStream (fs : Tree) where
  names : List Name
  canonical : Canonical fs.kind names
  regular : fs.kind names = some .regular
  size : ℕ
  offset : ℕ

namespace FileReadStream

def systemFailure (error : Errno) : FileReadError :=
  match error with
  | .noEntry => ⟨.notFound,some error,none⟩
  | .notDirectory => ⟨.notFound,some error,none⟩
  | .accessDenied => ⟨.permissionDenied,some error,none⟩
  | _ => ⟨.filesystemFailure,some error,none⟩

/-- A system call that is refused, or else what it does. -/
def attempt {α : Type} (answers : OpenAnswers) (step : OpenStep) (result : Except Errno α) :
    Except FileReadError α :=
  match answers.refused step with
  | some error => .error (systemFailure error)
  | none =>
    match result with
    | .error error => .error (systemFailure error)
    | .ok value => .ok value

/-- From `fstat` on: the object must be a regular file of a size that is not negative. -/
def inspect {opened : Tree} (answers : OpenAnswers) (names : List Name) (canonical : Canonical opened.kind names) :
    Except FileReadError (FileReadStream opened) := do
  attempt answers .status (.ok ())
  if h : opened.kind names = some .regular ∧ (answers.attributes names).regular = true ∧
      0 ≤ (answers.attributes names).size then
    attempt answers .statusFlags (.ok ())
    attempt answers .blocking (.ok ())
    return ⟨names,canonical,h.1,(answers.attributes names).size.toNat,0⟩
  else throw ⟨.notRegularFile,none,none⟩

/-- `FileReadStream::open`; the path is resolved in one tree and opened in another. -/
def openStream (fs opened : Tree) (sharedRoot : SharedRoot) (requestedPath : Bytes) (answers : OpenAnswers) :
    Except FileReadError (FileReadStream opened) :=
  match SafePath.resolve fs sharedRoot requestedPath with
  | .error e => .error ⟨.invalidPath,none,some e.code⟩
  | .ok safePath => do
    let root ← attempt answers .root (openDirectory opened sharedRoot.path)
    attempt answers .rootPath (.ok ())
    match hfile : openObject opened safePath.path with
    | .error e => attempt answers .file (.error e)
    | .ok file =>
      attempt answers .file (.ok ())
      attempt answers .filePath (.ok ())
      if !isWithinRoot (reportedPath file) (descriptorPath root) then
        throw ⟨.outsideSharedRoot,none,some .outsideSharedRoot⟩
      else inspect answers file (openObject_canonical hfile)

/-- The loop of `FileReadStream::read` over the interruptions of its native read. A count beyond the span is
none that the system gives, and neither are bytes that the file does not hold. -/
def readLoop {fs : Tree} (stream : FileReadStream fs) (requested : ℕ) (native : NativeRead) :
    List Bool → Except FileReadError Bytes × FileReadStream fs
  | [] =>
    match native.outcome with
    | .error e => (.error (systemFailure e),stream)
    | .ok count =>
      let bytes := (native.contents.drop stream.offset).take (min count requested)
      (.ok bytes,{ stream with offset := stream.offset + bytes.length })
  | stopRequested :: interruptions =>
    if stopRequested then (.error ⟨.cancelled,none,none⟩,stream)
    else readLoop stream requested native interruptions

/-- `FileReadStream::read`, for a span of some length. -/
def read {fs : Tree} (stream : FileReadStream fs) (requested : ℕ) (stopRequested : Bool) (native : NativeRead) :
    Except FileReadError Bytes × FileReadStream fs :=
  if stopRequested then (.error ⟨.cancelled,none,none⟩,stream)
  else if requested = 0 then (.ok [],stream)
  else readLoop stream requested native native.interruptions

section Opening
variable {fs opened : Tree} {sharedRoot : SharedRoot} {requestedPath : Bytes} {answers : OpenAnswers}
variable {stream : FileReadStream opened}

theorem bind_ok {ε α β : Type} {x : Except ε α} {f : α → Except ε β} {r : β} (h : (x >>= f) = .ok r) :
    ∃ a, x = .ok a ∧ f a = .ok r := by
  cases x with
  | error e => cases h
  | ok a => exact ⟨a,rfl,h⟩

theorem attempt_eq_ok {α : Type} {step : OpenStep} {result : Except Errno α} {value : α}
    (h : attempt answers step result = .ok value) : answers.refused step = none ∧ result = .ok value := by
  unfold attempt at h
  split at h
  · cases h
  · rename_i hrefused
    split at h
    · cases h
    · cases h
      exact ⟨hrefused,rfl⟩

theorem inspect_eq_ok {names : List Name} {canonical : Canonical opened.kind names}
    (h : inspect answers names canonical = .ok stream) : stream.names = names ∧ stream.offset = 0 ∧
      (answers.attributes names).size = stream.size := by
  unfold inspect at h
  obtain ⟨-,-,h⟩ := bind_ok h
  split at h
  · rename_i hregular
    obtain ⟨-,-,h⟩ := bind_ok h
    obtain ⟨-,-,h⟩ := bind_ok h
    cases h
    exact ⟨rfl,rfl,(Int.toNat_of_nonneg hregular.2.2).symm⟩
  · cases h

/-- What is opened lies below what the root's path leads to at that time, whatever the tree was before. -/
theorem openStream_spec (h : openStream fs opened sharedRoot requestedPath answers = .ok stream) :
    ∃ safe root, SafePath.resolve fs sharedRoot requestedPath = .ok safe ∧
      openDirectory opened sharedRoot.path = .ok root ∧ root.names <+: stream.names ∧
      openObject opened safe.path = .ok stream.names ∧ stream.offset = 0 ∧
      (answers.attributes stream.names).size = stream.size := by
  unfold openStream at h
  split at h
  · cases h
  · rename_i safe hsafe
    obtain ⟨root,hroot,h⟩ := bind_ok h
    obtain ⟨-,-,h⟩ := bind_ok h
    split at h
    · have := attempt_eq_ok h
      cases this.2
    · rename_i file hfile
      obtain ⟨-,-,h⟩ := bind_ok h
      obtain ⟨-,-,h⟩ := bind_ok h
      split at h
      · cases h
      · rename_i hwithin
        obtain ⟨hnames,hoffset,hsize⟩ := inspect_eq_ok h
        have hcanonical := openObject_canonical hfile
        have hinside : isWithinRoot (reportedPath file) (descriptorPath root) = true := by simpa using hwithin
        rw [reportedPath,Path.lexicallyNormal_absolute hcanonical.proper,descriptorPath_eq,
          isWithinRoot_absolute hcanonical.proper root.canonical.proper] at hinside
        rw [hnames]
        exact ⟨safe,root,hsafe,(attempt_eq_ok hroot).2,hinside,hfile,hoffset,hsize⟩

end Opening

section Reading
variable {fs : Tree} {stream stream' : FileReadStream fs} {requested : ℕ} {native : NativeRead} {bytes : Bytes}

/-- One read: the bytes at the position, no more than asked for, and the position moved behind them. -/
structure Reads (stream : FileReadStream fs) (requested : ℕ) (native : NativeRead) (bytes : Bytes)
    (stream' : FileReadStream fs) : Prop where
  part : bytes <+: native.contents.drop stream.offset
  room : bytes.length ≤ requested
  position : stream' = { stream with offset := stream.offset + bytes.length }

theorem readLoop_ok {interruptions : List Bool}
    (h : readLoop stream requested native interruptions = (.ok bytes,stream')) :
    Reads stream requested native bytes stream' := by
  induction interruptions with
  | nil =>
    rw [readLoop] at h
    split at h
    · cases h
    · obtain ⟨hbytes,rfl⟩ := Prod.mk.inj h
      obtain rfl := Except.ok.inj hbytes
      refine ⟨List.take_prefix _ _,?_,rfl⟩
      exact (List.length_take_le _ _).trans (Nat.min_le_right _ _)
  | cons stop rest ih =>
    rw [readLoop] at h
    split at h
    · cases h
    · exact ih h

theorem readLoop_error {interruptions : List Bool} {error : FileReadError}
    (h : readLoop stream requested native interruptions = (.error error,stream')) : stream' = stream := by
  induction interruptions with
  | nil =>
    rw [readLoop] at h
    split at h
    · exact (Prod.mk.inj h).2.symm
    · cases (Prod.mk.inj h).1
  | cons stop rest ih =>
    rw [readLoop] at h
    split at h
    · exact (Prod.mk.inj h).2.symm
    · exact ih h

theorem read_ok {stopRequested : Bool} (h : read stream requested stopRequested native = (.ok bytes,stream')) :
    Reads stream requested native bytes stream' := by
  unfold read at h
  split at h
  · cases h
  · split at h
    · obtain ⟨hbytes,rfl⟩ := Prod.mk.inj h
      obtain rfl := Except.ok.inj hbytes
      exact ⟨List.nil_prefix,Nat.zero_le _,rfl⟩
    · exact readLoop_ok h

theorem read_error {stopRequested : Bool} {error : FileReadError}
    (h : read stream requested stopRequested native = (.error error,stream')) : stream' = stream := by
  unfold read at h
  split at h
  · exact (Prod.mk.inj h).2.symm
  · split at h
    · cases (Prod.mk.inj h).1
    · exact readLoop_error h

end Reading

end FileReadStream
end SpareNode.Filesystem
