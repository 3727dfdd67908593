import SpareNode.Foundation.Interruption
import SpareNode.Http.Request.RequestParser
import SpareNode.Storage.TemporaryFile

/-! # Request-body ingestion

`RequestBodyIngestor` decodes wire bytes and stores what they yield. What the outside
world does at each point (interruption, file creation, writes, completion, allocation)
is a `StorageEnvironment`, asked once per point with a running number, so that every
pattern of failures is some environment. A writer and an artifact are the bytes they
hold; what was asked of the temporary storage is kept in a history that the code does not have.
-/
namespace SpareNode.Storage
open Concurrency

/-- The outcomes of the calls that leave the process, by running number. -/
structure StorageEnvironment where
  interruption : ℕ → InterruptionStatus
  create : ℕ → Except TemporaryFileError Unit
  write : ℕ → Except TemporaryFileError Unit
  complete : ℕ → Except TemporaryFileError Unit
  shareArtifact : ℕ → Bool
  allocate : ℕ → Bool

def StorageEnvironment.reliable : StorageEnvironment where
  interruption _ := .none
  create _ := .ok ()
  write _ := .ok ()
  complete _ := .ok ()
  shareArtifact _ := true
  allocate _ := true

/-- What an ingestor asks of its temporary storage. -/
inductive StorageCall
  | create
  | write (bytes : Bytes)
  | complete
  deriving DecidableEq, Repr

end SpareNode.Storage

namespace SpareNode.Http
open Storage Concurrency

/-- `RequestBodyStorageMode`. -/
inductive RequestBodyStorageMode
  | temporaryFile
  | memory
  deriving DecidableEq, Repr

/-- `RequestBodyStoragePolicy`; zero keeps the connection-wide limit. -/
structure RequestBodyStoragePolicy where
  mode : RequestBodyStorageMode := .temporaryFile
  maxBodyBytes : ℕ := 0
  deriving DecidableEq, Repr

/-- `RequestBodyIngestionErrorCode`. -/
inductive RequestBodyIngestionErrorCode
  | framingFailure
  | bodyTooLarge
  | temporaryFileFailure
  | cancelled
  | deadlineExceeded
  | resourceFailure
  deriving DecidableEq, Repr

/-- `RequestBodyIngestionError`; unused details are value-initialized. -/
structure RequestBodyIngestionError where
  code : RequestBodyIngestionErrorCode
  framingError : HttpRequestParseError := ⟨.requestLineTooLarge,0⟩
  fileError : TemporaryFileError := {}
  deriving DecidableEq, Repr

/-- `interruption`. -/
def interruptionError : InterruptionStatus → Option RequestBodyIngestionError
  | .cancelled => some { code := .cancelled }
  | .deadlineExceeded => some { code := .deadlineExceeded }
  | .none => none

def framingFailure (error : HttpRequestParseError) : RequestBodyIngestionError where
  code := if error.code = .bodyTooLarge then .bodyTooLarge else .framingFailure
  framingError := error

def fileFailure (error : TemporaryFileError) : RequestBodyIngestionError where
  code := match error.code with
    | .cancelled => .cancelled
    | .deadlineExceeded => .deadlineExceeded
    | .resourceAllocationFailed => .resourceFailure
    | _ => .temporaryFileFailure
  fileError := error

structure RequestBodyIngestor where
  decoder : HttpBodyDecoder
  storageMode : RequestBodyStorageMode
  memoryBody : Option Bytes
  writer : Option Bytes := none
  artifact : Option Bytes := none
  bodySize : ℕ := 0
  finalized : Bool
  failure : Option RequestBodyIngestionError := none
  tick : ℕ := 0
  history : List (StorageCall × Bool) := []

namespace RequestBodyIngestor

def create (head : HttpRequestHead) (limits : HttpRequestParserLimits)
    (storageMode : RequestBodyStorageMode) : RequestBodyIngestor where
  decoder := HttpBodyDecoder.create head limits
  storageMode := storageMode
  memoryBody := if storageMode = .memory then some [] else none
  finalized := (HttpBodyDecoder.create head limits).complete

def complete (g : RequestBodyIngestor) : Bool :=
  g.decoder.complete && g.finalized && g.failure.isNone

/-- `RequestBodyIngestor::artifact`. -/
def completedArtifact (g : RequestBodyIngestor) : Option Bytes :=
  if g.complete then g.artifact else none

/-- `RequestBodyIngestor::memory_body`. -/
def completedMemoryBody (g : RequestBodyIngestor) : Option Bytes :=
  if g.complete = true ∧ g.storageMode = .memory then g.memoryBody else none

def next (g : RequestBodyIngestor) : RequestBodyIngestor := { g with tick := g.tick + 1 }

/-- A call of the storage has returned, with or without success. -/
def called (g : RequestBodyIngestor) (call : StorageCall) (success : Bool) : RequestBodyIngestor :=
  { g.next with history := g.history ++ [(call,success)] }

/-- `RequestBodyIngestor::fail`, as the failed result of a member function. -/
def fail {α : Type} (g : RequestBodyIngestor) (error : RequestBodyIngestionError) :
    RequestBodyIngestor × Except RequestBodyIngestionError α :=
  ({ g with writer := none, artifact := none, failure := some error },.error error)

def ensureArtifact (env : StorageEnvironment) (g : RequestBodyIngestor) :
    RequestBodyIngestor × Except RequestBodyIngestionError Unit :=
  if g.writer.isSome then (g,.ok ())
  else
    match env.create g.tick with
    | .error e => (g.called .create false).fail (fileFailure e)
    | .ok () => ({ g.called .create true with writer := some [] },.ok ())

def finalize (env : StorageEnvironment) (g : RequestBodyIngestor) :
    RequestBodyIngestor × Except RequestBodyIngestionError Unit :=
  if g.finalized then (g,.ok ())
  else
    match g.writer with
    | none => ({ g with finalized := true },.ok ())
    | some bytes =>
      match env.complete g.tick with
      | .error e => (g.called .complete false).fail (fileFailure e)
      | .ok () =>
        let closed := g.called .complete true
        if env.shareArtifact closed.tick then
          ({ closed.next with artifact := some bytes, writer := none, finalized := true },.ok ())
        else closed.next.fail { code := .resourceFailure }

def persist (env : StorageEnvironment) (g : RequestBodyIngestor) (output : Bytes) :
    RequestBodyIngestor × Except RequestBodyIngestionError Unit :=
  match interruptionError (env.interruption g.tick) with
  | some e => g.next.fail e
  | none =>
    if g.storageMode = .memory then
      if env.allocate g.next.tick then
        ({ g.next.next with
          memoryBody := g.memoryBody.map (· ++ output)
          bodySize := g.bodySize + output.length },.ok ())
      else g.next.next.fail { code := .resourceFailure }
    else
      match g.next.ensureArtifact env with
      | (g,.error e) => (g,.error e)
      | (g,.ok ()) =>
        match env.write g.tick with
        | .error e => (g.called (.write output) false).fail (fileFailure e)
        | .ok () =>
          ({ g.called (.write output) true with
            writer := g.writer.map (· ++ output)
            bodySize := g.bodySize + output.length },.ok ())

end RequestBodyIngestor

theorem HttpBodyDecoder.feedLoop_output_le {d d' : HttpBodyDecoder} {input output out : Bytes}
    {capacity consumed c : ℕ} (h : d.feedLoop input capacity consumed output = (d',.ok (c,out))) :
    out.length + consumed ≤ output.length + c := by
  fun_induction feedLoop d input capacity consumed output <;> grind

theorem HttpBodyDecoder.feed_output_le {d d' : HttpBodyDecoder} {input : Bytes} {capacity : ℕ}
    {p : HttpBodyDecodeProgress} (h : d.feed input capacity = (d',.ok p)) :
    p.output.length ≤ p.consumed := by
  unfold feed at h
  split at h
  · simp at h
  · split at h
    · simp at h
    · next d1 c out hloop =>
      simp only [Prod.mk.injEq,Except.ok.injEq] at h
      obtain ⟨rfl,rfl⟩ := h
      have hle := feedLoop_output_le hloop
      simpa using hle

namespace RequestBodyIngestor

/-- The decoded payload of one round, stored unless it is empty. -/
def store (env : StorageEnvironment) (g : RequestBodyIngestor) (output : Bytes) :
    RequestBodyIngestor × Except RequestBodyIngestionError Unit :=
  if output = [] then (g,.ok ()) else g.persist env output

/-- The loop of `RequestBodyIngestor::feed` on the input not yet consumed. The produced
count of the source is the length of the output. -/
def feedLoop (env : StorageEnvironment) (g : RequestBodyIngestor) (pending : Bytes)
    (total : HttpBodyDecodeProgress) :
    RequestBodyIngestor × Except RequestBodyIngestionError HttpBodyDecodeProgress :=
  match _hfeed : g.decoder.feed pending bodyDecodeBufferBytes with
  | (d,.error e) => { g with decoder := d }.fail (framingFailure e)
  | (d,.ok p) =>
    let total : HttpBodyDecodeProgress :=
      ⟨total.consumed + p.consumed,total.output ++ p.output,p.complete⟩
    match { g with decoder := d }.store env p.output with
    | (g,.error e) => (g,.error e)
    | (g,.ok ()) =>
      if p.complete then
        match g.finalize env with
        | (g,.error e) => (g,.error e)
        | (g,.ok ()) => (g,.ok total)
      else if p.consumed = 0 ∧ p.output = [] then (g,.ok total)
      else if pending.drop p.consumed = [] then (g,.ok total)
      else feedLoop env g (pending.drop p.consumed) total
termination_by pending.length
decreasing_by
  have hle := HttpBodyDecoder.feed_output_le _hfeed
  have hpos : 0 < p.consumed := by
    by_contra hz
    rename_i hstuck _
    exact hstuck ⟨by omega,List.length_eq_zero_iff.mp (by omega)⟩
  rename_i hrest
  have hlen := List.length_pos_iff.mpr hrest
  rw [List.length_drop] at hlen ⊢
  omega

section Round
variable {env : StorageEnvironment} {g g' : RequestBodyIngestor} {pending : Bytes} {total p : HttpBodyDecodeProgress}
  {d : HttpBodyDecoder}

theorem feedLoop_completed {g'' : RequestBodyIngestor}
    (hfeed : g.decoder.feed pending bodyDecodeBufferBytes = (d,.ok p))
    (hstore : ({ g with decoder := d } : RequestBodyIngestor).store env p.output = (g',.ok ()))
    (hdone : p.complete = true) (hfinal : g'.finalize env = (g'',.ok ())) :
    g.feedLoop env pending total = (g'',.ok ⟨total.consumed + p.consumed,total.output ++ p.output,true⟩) := by
  rw [feedLoop.eq_def,hfeed]
  simp only [hstore,hdone,hfinal,↓reduceIte]

theorem feedLoop_drained (hfeed : g.decoder.feed pending bodyDecodeBufferBytes = (d,.ok p))
    (hstore : ({ g with decoder := d } : RequestBodyIngestor).store env p.output = (g',.ok ()))
    (hopen : p.complete = false) (hrest : pending.drop p.consumed = []) :
    g.feedLoop env pending total = (g',.ok ⟨total.consumed + p.consumed,total.output ++ p.output,false⟩) := by
  rw [feedLoop.eq_def,hfeed]
  simp only [hstore,hopen,hrest]
  simp

theorem feedLoop_again (hfeed : g.decoder.feed pending bodyDecodeBufferBytes = (d,.ok p))
    (hstore : ({ g with decoder := d } : RequestBodyIngestor).store env p.output = (g',.ok ()))
    (hopen : p.complete = false) (hpos : 0 < p.consumed) (hrest : pending.drop p.consumed ≠ []) :
    g.feedLoop env pending total = g'.feedLoop env (pending.drop p.consumed)
      ⟨total.consumed + p.consumed,total.output ++ p.output,false⟩ := by
  rw [feedLoop.eq_def,hfeed]
  simp only [hstore,hopen]
  rw [if_neg (by simp),if_neg (by omega),if_neg hrest]

end Round

def feed (env : StorageEnvironment) (g : RequestBodyIngestor) (input : Bytes) :
    RequestBodyIngestor × Except RequestBodyIngestionError HttpBodyDecodeProgress :=
  match g.failure with
  | some e => (g,.error e)
  | none =>
    match interruptionError (env.interruption g.tick) with
    | some e => g.next.fail e
    | none => g.next.feedLoop env input ⟨0,[],false⟩

def finish (env : StorageEnvironment) (g : RequestBodyIngestor) :
    RequestBodyIngestor × Except RequestBodyIngestionError Unit :=
  match g.failure with
  | some e => (g,.error e)
  | none =>
    match interruptionError (env.interruption g.tick) with
    | some e => g.next.fail e
    | none =>
      match g.decoder.finish with
      | (d,.error e) => { g.next with decoder := d }.fail (framingFailure e)
      | (d,.ok ()) => { g.next with decoder := d }.finalize env

end RequestBodyIngestor
end SpareNode.Http
