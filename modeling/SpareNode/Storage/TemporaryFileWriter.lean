import SpareNode.Storage.TemporaryFileIo

/-! # Temporary-file writers and their workers

A writer's caller and its worker thread move in the atomic steps that their mutexes leave: a step
is a critical section or a native operation. All writers share the slots that bound how many native
operations are under way. Who released a ticket is kept in a history that the code does not have.
-/
namespace SpareNode.Storage
open Concurrency

/-- `FileWorkerSlots::Ticket`. -/
structure Ticket where
  orphaned : Bool := false
  released : Bool := false
deriving DecidableEq, Repr

/-- Where a ticket is released: in the rejecting branch of `run`, or by the worker. -/
inductive Releaser where
  | caller | worker
deriving DecidableEq, Repr

def maximumWorkers : ℤ := 32

/-- `FileWorkerSlots`, with the acquired tickets in order. -/
structure FileWorkerSlots where
  active : ℤ := 0
  orphaned : ℤ := 0
  tickets : List Ticket := []
  releases : List (ℕ × Releaser) := []
deriving DecidableEq, Repr

namespace FileWorkerSlots

/-- `acquire` up to the end of its wait: no answer stands for a caller that goes on waiting. -/
def acquire (slots : FileWorkerSlots) (options : TemporaryFileIoOptions) (moment : Moment) :
    Option (FileWorkerSlots × Except TemporaryFileError ℕ) :=
  let available := slots.active < maximumWorkers ∨ slots.orphaned = maximumWorkers
  match options.interruption moment with
  | some e => some (slots,.error e)
  | none =>
    if available then
      if slots.orphaned = maximumWorkers then some (slots,.error ⟨.resourceAllocationFailed,0⟩)
      else
        some ({ slots with active := slots.active + 1, tickets := slots.tickets ++ [{}] },
          .ok slots.tickets.length)
    else none

def orphan (slots : FileWorkerSlots) (ticket : ℕ) : FileWorkerSlots :=
  match slots.tickets[ticket]? with
  | none => slots
  | some t =>
    if !t.released && !t.orphaned then
      { slots with
        tickets := slots.tickets.set ticket { t with orphaned := true }
        orphaned := slots.orphaned + 1 }
    else slots

def release (slots : FileWorkerSlots) (ticket : ℕ) (releaser : Releaser) : FileWorkerSlots :=
  let slots := { slots with releases := slots.releases ++ [(ticket,releaser)] }
  match slots.tickets[ticket]? with
  | none => slots
  | some t =>
    if !t.released then
      { slots with
        tickets := slots.tickets.set ticket { t with released := true }
        active := slots.active - 1
        orphaned := if t.orphaned then slots.orphaned - 1 else slots.orphaned }
    else slots

end FileWorkerSlots

def isolatedPayloadBytes : ℕ := 16 * 1024

inductive FileOperation where
  | write | complete
deriving DecidableEq, Repr

def workerUnavailable (nativeCode : ℤ) : TemporaryFileError := ⟨.resourceAllocationFailed,nativeCode⟩

/-- `FileWorker::State` without the file, which the writer keeps. -/
structure WorkerState where
  ticket : Option ℕ := none
  buffer : Bytes := List.replicate isolatedPayloadBytes 0
  options : TemporaryFileIoOptions := ⟨false,none⟩
  result : Option (Except TemporaryFileError Unit) := none
  bytes : ℕ := 0
  sequence : ℕ := 0
  completed : ℕ := 0
  operation : FileOperation := .write
  pending : Bool := false
  stopping : Bool := false

/-- Where the worker thread is, with the fields that it has copied. -/
inductive WorkerThread where
  | waiting
  | running (operation : FileOperation) (bytes : ℕ) (options : TemporaryFileIoOptions) (sequence offset : ℕ)
  | ended (sequence : ℕ) (result : Except TemporaryFileError Unit)
  | releasing (ticket : Option ℕ)
  | exited

structure FileWorker where
  state : WorkerState := {}
  thread : WorkerThread := .waiting

/-- What a native step of the worker meets. -/
inductive NativeStep where
  | round (round : WriteRound)
  | complete (answers : CompletionAnswers)
  | thrown

namespace FileWorker

/-- The worker wakes up: it takes the queued operation, or leaves. -/
def wake (worker : FileWorker) : Option FileWorker :=
  match worker.thread with
  | .waiting =>
    if worker.state.pending then
      some { worker with
        thread := .running worker.state.operation worker.state.bytes worker.state.options
          worker.state.sequence 0 }
    else if worker.state.stopping then some { worker with thread := .exited }
    else none
  | _ => none

/-- The native operation moves on. A write reads the shared buffer in each round. -/
def native (worker : FileWorker) (file : NativeFile) (step : NativeStep) :
    Option (FileWorker × NativeFile) :=
  match worker.thread with
  | .running operation bytes options sequence offset =>
    let end_ (file : NativeFile) (result : Except TemporaryFileError Unit) :=
      ({ worker with thread := .ended sequence result },file)
    match step with
    | .thrown => some (end_ file (.error (workerUnavailable 0)))
    | .complete answers =>
      match operation with
      | .write => none
      | .complete =>
        let r := file.complete options answers
        some (end_ r.1 r.2)
    | .round round =>
      match operation with
      | .complete => none
      | .write =>
        -- the source looks once, before its loop: nobody else closes the file meanwhile
        if file.refuses then some (end_ file (.error ⟨.invalidState,0⟩))
        else if bytes ≤ offset then
          some (end_ (file.written (worker.state.buffer.take bytes)) (.ok ()))
        else
          match file.writeRound (worker.state.buffer.take bytes) offset options round with
          | (file,.error e) => some (end_ file (.error e))
          | (file,.ok offset) =>
            some ({ worker with thread := .running operation bytes options sequence offset },file)
  | _ => none

/-- The worker publishes its result and takes the ticket out of the shared state. -/
def publish (worker : FileWorker) : Option FileWorker :=
  match worker.thread with
  | .ended sequence result =>
    some
      { state := { worker.state with
          result := some result
          completed := sequence
          pending := false
          ticket := none }
        thread := .releasing worker.state.ticket }
  | _ => none

def settle (worker : FileWorker) (slots : FileWorkerSlots) : Option (FileWorker × FileWorkerSlots) :=
  match worker.thread with
  | .releasing ticket =>
    some ({ worker with thread := .waiting },
      match ticket with
      | some ticket => slots.release ticket .worker
      | none => slots)
  | _ => none

/-- The critical section of `run` that queues an operation, or rejects it. -/
def enqueue (worker : FileWorker) (slots : FileWorkerSlots) (ticket : ℕ) (operation : FileOperation)
    (payload : Bytes) (options : TemporaryFileIoOptions) :
    FileWorker × FileWorkerSlots × Except TemporaryFileError ℕ :=
  if worker.state.stopping || worker.state.pending || isolatedPayloadBytes < payload.length then
    (worker,slots.release ticket .caller,.error ⟨.invalidState,0⟩)
  else
    ({ worker with
        state := { worker.state with
          buffer := payload ++ worker.state.buffer.drop payload.length
          bytes := payload.length
          operation := operation
          options := options
          ticket := some ticket
          result := none
          sequence := worker.state.sequence + 1
          pending := true } },slots,.ok (worker.state.sequence + 1))

/-- The end of `run`: what a caller gets that has stopped waiting. -/
def outcome (worker : FileWorker) (sequence : ℕ) (options : TemporaryFileIoOptions) (moment : Moment) :
    Except TemporaryFileError Unit :=
  match options.interruption moment with
  | some e => .error e
  | none =>
    if worker.state.completed = sequence then
      worker.state.result.getD (.error (workerUnavailable 0))
    else .error (workerUnavailable 0)

end FileWorker

/-- What a caller asks of a writer; a write goes piece by piece, from an offset. -/
inductive WriterCall where
  | write (bytes : Bytes)
  | complete
deriving DecidableEq, Repr

inductive Caller where
  | idle
  | acquiring (call : WriterCall) (offset : ℕ) (options : TemporaryFileIoOptions)
  | acquired (ticket : ℕ) (call : WriterCall) (offset : ℕ) (options : TemporaryFileIoOptions)
  | awaiting (sequence : ℕ) (call : WriterCall) (offset : ℕ) (options : TemporaryFileIoOptions)
  | joining
  | abandoning (ticket : Option ℕ)
  | gone

/-- A `TemporaryFileWriter`, its worker and its caller, with the calls that have returned. -/
structure Writer where
  file : NativeFile := {}
  worker : Option FileWorker := none
  completed : Bool := false
  caller : Caller := .idle
  returned : List (WriterCall × Except TemporaryFileError Unit) := []

/-- How the caller's start of a call turns out. -/
structure Invocation where
  spawned : Except ℤ Unit
  rounds : List WriteRound
  answers : CompletionAnswers

inductive WriterStep where
  | invoke (call : WriterCall) (options : TemporaryFileIoOptions) (invocation : Invocation)
  | acquire (allocated : Bool) (moment : Moment)
  | enqueue
  | await (moment : Moment)
  | join
  | destroy
  | orphan
  | wake
  | native (step : NativeStep)
  | publish
  | settle

namespace Writer

def return_ (w : Writer) (call : WriterCall) (result : Except TemporaryFileError Unit) : Writer :=
  { w with caller := .idle, returned := w.returned ++ [(call,result)] }

def artifact (w : Writer) : Option NativeFile := if w.completed then some w.file else none

def ensureWorker (w : Writer) (options : TemporaryFileIoOptions) (spawned : Except ℤ Unit) :
    Except TemporaryFileError Writer :=
  if w.worker.isSome || (options.deadline.isNone && !options.stopPossible) then .ok w
  else
    match spawned with
    | .error code => .error (workerUnavailable code)
    | .ok () => .ok { w with worker := some {} }

/-- The direct operation of a writer without a worker. -/
def direct (w : Writer) (options : TemporaryFileIoOptions) (invocation : Invocation) :
    WriterCall → Option Writer
  | .write bytes =>
    (w.file.write bytes options invocation.rounds).map fun r =>
      { w with file := r.1 }.return_ (.write bytes) r.2
  | .complete =>
    let r := w.file.complete options invocation.answers
    match r.2 with
    | .error e => some ({ w with file := r.1 }.return_ .complete (.error e))
    | .ok () => some ({ w with file := r.1, completed := true }.return_ .complete (.ok ()))

/-- `write` and `complete` up to their first wait. -/
def invoke (w : Writer) (call : WriterCall) (options : TemporaryFileIoOptions)
    (invocation : Invocation) : Option Writer :=
  if w.completed then some (w.return_ call (.error ⟨.invalidState,0⟩))
  else
    match w.ensureWorker options invocation.spawned with
    | .error e => some (w.return_ call (.error e))
    | .ok w =>
      if w.worker.isNone then w.direct options invocation call
      else some { w with caller := .acquiring call 0 options }

def piece (offset : ℕ) : WriterCall → Bytes
  | .write bytes => (bytes.drop offset).take isolatedPayloadBytes
  | .complete => []

def operation : WriterCall → FileOperation
  | .write _ => .write
  | .complete => .complete

/-- What follows a successful `run`: the next piece, the end of the write, or `finish`. -/
def proceed (w : Writer) (worker : FileWorker) (offset : ℕ) (options : TemporaryFileIoOptions) :
    WriterCall → Writer
  | .write bytes =>
    let offset := offset + (piece offset (.write bytes)).length
    if offset < bytes.length then { w with caller := .acquiring (.write bytes) offset options }
    else w.return_ (.write bytes) (.ok ())
  | .complete => { w with
      worker := some { worker with state := { worker.state with stopping := true } }
      caller := .joining }

/-- One atomic step of the caller or the worker. -/
def step (slots : FileWorkerSlots) (w : Writer) : WriterStep → Option (FileWorkerSlots × Writer)
  | .invoke call options invocation =>
    match w.caller with
    | .idle => (w.invoke call options invocation).map fun w => (slots,w)
    | _ => none
  | .acquire allocated moment =>
    match w.caller with
    | .acquiring call offset options =>
      if allocated then
        match slots.acquire options moment with
        | none => none
        | some (slots,.error e) => some (slots,w.return_ call (.error e))
        | some (slots,.ok ticket) => some (slots,{ w with caller := .acquired ticket call offset options })
      else some (slots,w.return_ call (.error (workerUnavailable 0)))
    | _ => none
  | .enqueue =>
    match w.caller, w.worker with
    | .acquired ticket call offset options, some worker =>
      match worker.enqueue slots ticket (operation call) (piece offset call) options with
      | (worker,slots,.error e) => some (slots,{ w with worker := some worker }.return_ call (.error e))
      | (worker,slots,.ok sequence) =>
        some (slots,{ w with worker := some worker, caller := .awaiting sequence call offset options })
    | _, _ => none
  | .await moment =>
    match w.caller, w.worker with
    | .awaiting sequence call offset options, some worker =>
      match worker.outcome sequence options moment with
      | .error e => some (slots,w.return_ call (.error e))
      | .ok () => some (slots,w.proceed worker offset options call)
    | _, _ => none
  | .join =>
    match w.caller, w.worker with
    | .joining, some ⟨_,.exited⟩ =>
      some (slots,{ w with worker := none, completed := true }.return_ .complete (.ok ()))
    | _, _ => none
  | .destroy =>
    match w.caller, w.worker with
    | .idle, none => some (slots,{ w with caller := .gone })
    | .idle, some worker =>
      some (slots,{ w with
        worker := some { worker with state := { worker.state with stopping := true } }
        caller := .abandoning worker.state.ticket })
    | _, _ => none
  | .orphan =>
    match w.caller with
    | .abandoning (some ticket) => some (slots.orphan ticket,{ w with caller := .gone })
    | .abandoning none => some (slots,{ w with caller := .gone })
    | _ => none
  | .wake =>
    match w.worker with
    | some worker => worker.wake.map fun worker => (slots,{ w with worker := some worker })
    | none => none
  | .native step =>
    match w.worker with
    | some worker =>
      (worker.native w.file step).map fun r => (slots,{ w with worker := some r.1, file := r.2 })
    | none => none
  | .publish =>
    match w.worker with
    | some worker => worker.publish.map fun worker => (slots,{ w with worker := some worker })
    | none => none
  | .settle =>
    match w.worker with
    | some worker =>
      (worker.settle slots).map fun r => (r.2,{ w with worker := some r.1 })
    | none => none

end Writer

/-- Any number of writers over the slots that they share. -/
structure WriterSystem (ι : Type) where
  slots : FileWorkerSlots := {}
  writers : ι → Writer := fun _ => {}

variable {ι : Type} [DecidableEq ι]

def WriterSystem.step (s : WriterSystem ι) (i : ι) (action : WriterStep) : Option (WriterSystem ι) :=
  ((s.writers i).step s.slots action).map fun r => ⟨r.1,Function.update s.writers i r.2⟩

/-- An interleaving from the start; a step that is not there is passed over. -/
def WriterSystem.after (moves : List (ι × WriterStep)) : WriterSystem ι :=
  moves.foldl (fun s m => (s.step m.1 m.2).getD s) {}

end SpareNode.Storage
