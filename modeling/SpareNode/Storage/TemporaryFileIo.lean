import SpareNode.Foundation.Bytes
import SpareNode.Foundation.Interruption
import SpareNode.Storage.TemporaryFile

/-! # Native operations of a temporary file

`TemporaryFile::write` and `TemporaryFile::complete` over a scripted kernel. What reached the file
is kept as the list of its native events. A round of the write loop is a function of its own, for
the worker runs the rounds one by one while other threads move.
-/
namespace SpareNode.Storage
open Concurrency

/-- `TemporaryFileIoOptions`; of the stop token only whether it can be used. -/
structure TemporaryFileIoOptions where
  stopPossible : Bool
  deadline : Option ℤ
deriving DecidableEq, Repr

/-- `interruption`, at some moment. -/
def TemporaryFileIoOptions.interruption (options : TemporaryFileIoOptions) (moment : Moment) :
    Option TemporaryFileError :=
  match interruptionStatus ⟨options.stopPossible && moment.stopRequested,moment.now⟩ options.deadline with
  | .cancelled => some ⟨.cancelled,0⟩
  | .deadlineExceeded => some ⟨.deadlineExceeded,0⟩
  | .none => none

def maximumNativeWriteBytes : ℕ := 16 * 1024

inductive FileEvent where
  | wrote (bytes : Bytes)
  | completed
deriving DecidableEq, Repr

/-- The open side of a `TemporaryFile`. -/
structure NativeFile where
  isOpen : Bool := true
  size : ℕ := 0
  completed : Bool := false
  events : List FileEvent := []
deriving DecidableEq, Repr

/-- What `write` of the kernel answers; a count is cut to what was asked for. -/
inductive NativeWrite where
  | written (count : ℕ)
  | interrupted
  | failed (code : ℤ)
deriving DecidableEq, Repr

/-- One round of the write loop, with the moments of its two looks at the policy. -/
structure WriteRound where
  before : Moment
  native : NativeWrite
  after : Moment
deriving DecidableEq, Repr

/-- What the two native calls of a completion answer, an error code if they fail. -/
structure CompletionAnswers where
  before : Moment
  flush : Option ℤ
  flushed : Moment
  close : Option ℤ
  after : Moment
deriving DecidableEq, Repr

namespace NativeFile

def refuses (file : NativeFile) : Bool := !file.isOpen || file.completed

/-- A round of `TemporaryFile::write` at some offset; a result is the next offset. -/
def writeRound (file : NativeFile) (bytes : Bytes) (offset : ℕ) (options : TemporaryFileIoOptions)
    (round : WriteRound) : NativeFile × Except TemporaryFileError ℕ :=
  match options.interruption round.before with
  | some e => (file,.error e)
  | none =>
    match round.native with
    | .interrupted => (file,.ok offset)
    | .failed code => (file,.error ⟨.writeFailed,code⟩)
    | .written count =>
      let written := min count (min (bytes.length - offset) maximumNativeWriteBytes)
      if written = 0 then (file,.error ⟨.writeFailed,0⟩)
      else
        let file := { file with events := file.events ++ [.wrote ((bytes.drop offset).take written)] }
        match options.interruption round.after with
        | some e => (file,.error e)
        | none => (file,.ok (offset + written))

def written (file : NativeFile) (bytes : Bytes) : NativeFile := { file with size := file.size + bytes.length }

/-- The loop of `TemporaryFile::write`; it has not returned after rounds that leave bytes over. -/
def writeLoop (bytes : Bytes) (options : TemporaryFileIoOptions) (offset : ℕ) (file : NativeFile) :
    List WriteRound → Option (NativeFile × Except TemporaryFileError Unit)
  | [] => if bytes.length ≤ offset then some (file.written bytes,.ok ()) else none
  | round :: rest =>
    if bytes.length ≤ offset then some (file.written bytes,.ok ())
    else
      match file.writeRound bytes offset options round with
      | (file,.error e) => some (file,.error e)
      | (file,.ok offset) => writeLoop bytes options offset file rest

def write (file : NativeFile) (bytes : Bytes) (options : TemporaryFileIoOptions)
    (rounds : List WriteRound) : Option (NativeFile × Except TemporaryFileError Unit) :=
  if file.refuses then some (file,.error ⟨.invalidState,0⟩)
  else writeLoop bytes options 0 file rounds

def complete (file : NativeFile) (options : TemporaryFileIoOptions) (answers : CompletionAnswers) :
    NativeFile × Except TemporaryFileError Unit :=
  if file.refuses then (file,.error ⟨.invalidState,0⟩)
  else
    match options.interruption answers.before with
    | some e => (file,.error e)
    | none =>
      match answers.flush with
      | some code => (file,.error ⟨.flushFailed,code⟩)
      | none =>
        match options.interruption answers.flushed with
        | some e => (file,.error e)
        | none =>
          let file := { file with isOpen := false }
          match answers.close with
          | some code => (file,.error ⟨.closeFailed,code⟩)
          | none =>
            match options.interruption answers.after with
            | some e => (file,.error e)
            | none => ({ file with completed := true, events := file.events ++ [.completed] },.ok ())

end NativeFile

def eventBytes (events : List FileEvent) : Bytes :=
  (events.map fun
    | .wrote bytes => bytes
    | .completed => []).flatten

/-- An open file that has received exactly some bytes. -/
structure NativeFile.Holds (file : NativeFile) (content : Bytes) : Prop where
  open_ : file.refuses = false
  content : eventBytes file.events = content
  incomplete : FileEvent.completed ∉ file.events

/-- A file that was completed once, after exactly some bytes, and takes no more. -/
def NativeFile.Closed (file : NativeFile) (content : Bytes) : Prop :=
  file.refuses = true ∧ ∃ writes, file.events = writes ++ [.completed] ∧ eventBytes writes = content ∧
    FileEvent.completed ∉ writes

variable {file file' : NativeFile} {content bytes : Bytes} {options : TemporaryFileIoOptions}

theorem eventBytes_append (events more : List FileEvent) :
    eventBytes (events ++ more) = eventBytes events ++ eventBytes more := by
  rw [eventBytes,List.map_append,List.flatten_append,eventBytes,eventBytes]

theorem holds_new : ({} : NativeFile).Holds [] := ⟨rfl,rfl,List.not_mem_nil⟩

namespace NativeFile

theorem not_ok {p : Prop} {α : Type} {f g : NativeFile} {e : TemporaryFileError} {r : α}
    (h : ((f,.error e) : NativeFile × Except TemporaryFileError α) = (g,.ok r)) : p :=
  absurd (congrArg Prod.snd h) (by simp)

/-- A round adds the next bytes of the payload, as many as the offset moves. -/
theorem Holds.writeRound (h : file.Holds (content ++ bytes.take offset)) {offset' : ℕ}
    {round : WriteRound} (hround : file.writeRound bytes offset options round = (file',.ok offset')) :
    file'.Holds (content ++ bytes.take offset') := by
  unfold NativeFile.writeRound at hround
  split at hround
  · exact not_ok hround
  · split at hround
    · have hpair : file = file' ∧ Except.ok offset = Except.ok offset' := Prod.mk.inj hround
      obtain ⟨rfl,hoffset⟩ := hpair
      obtain rfl := Except.ok.inj hoffset
      exact h
    · exact not_ok hround
    · rename_i count _
      dsimp only at hround
      split at hround
      · exact not_ok hround
      · split at hround
        · exact not_ok hround
        · have hfile := congrArg Prod.fst hround
          have hoffset := Except.ok.inj (congrArg Prod.snd hround)
          dsimp only at hfile hoffset
          subst hfile
          subst hoffset
          refine ⟨h.open_,?_,?_⟩
          · rw [eventBytes_append,h.content,List.append_assoc,List.take_add]
            simp [eventBytes]
          · simp [h.incomplete]

theorem Holds.writeLoop {offset : ℕ} {rounds : List WriteRound}
    (h : file.Holds (content ++ bytes.take offset))
    (hloop : NativeFile.writeLoop bytes options offset file rounds = some (file',.ok ())) :
    file'.Holds (content ++ bytes) := by
  induction rounds generalizing offset file with
  | nil =>
    unfold NativeFile.writeLoop at hloop
    split at hloop
    · rename_i hend
      obtain rfl := congrArg Prod.fst (Option.some.inj hloop)
      rw [List.take_of_length_le hend] at h
      exact ⟨h.open_,h.content,h.incomplete⟩
    · exact absurd hloop (by simp)
  | cons round rest ih =>
    unfold NativeFile.writeLoop at hloop
    split at hloop
    · rename_i hend
      obtain rfl := congrArg Prod.fst (Option.some.inj hloop)
      rw [List.take_of_length_le hend] at h
      exact ⟨h.open_,h.content,h.incomplete⟩
    · split at hloop
      · exact not_ok (Option.some.inj hloop)
      · rename_i hround
        exact ih (h.writeRound hround) hloop

theorem Holds.write {rounds : List WriteRound} (h : file.Holds content)
    (hwrite : file.write bytes options rounds = some (file',.ok ())) : file'.Holds (content ++ bytes) := by
  unfold NativeFile.write at hwrite
  split at hwrite
  · exact not_ok (Option.some.inj hwrite)
  · refine Holds.writeLoop ?_ hwrite
    rw [List.take_zero,List.append_nil]
    exact h

theorem Holds.complete {answers : CompletionAnswers} (h : file.Holds content)
    (hcomplete : file.complete options answers = (file',.ok ())) : file'.Closed content := by
  unfold NativeFile.complete at hcomplete
  rw [if_neg (by simp [h.open_])] at hcomplete
  split at hcomplete
  · exact not_ok hcomplete
  · split at hcomplete
    · exact not_ok hcomplete
    · split at hcomplete
      · exact not_ok hcomplete
      · dsimp only at hcomplete
        split at hcomplete
        · exact not_ok hcomplete
        · split at hcomplete
          · exact not_ok hcomplete
          · obtain rfl := congrArg Prod.fst hcomplete
            exact ⟨rfl,file.events,rfl,h.content,h.incomplete⟩

end NativeFile
end SpareNode.Storage
