import SpareNode.Storage.TemporaryFileWriter

/-! # What a writer's step can do

Every step of a writer is one of the moves below, with the guards under which it happens.
-/
namespace SpareNode.Storage
open Concurrency

/-- A caller that holds no ticket, in a call or before one. -/
inductive Caller.Free (call : WriterCall) : Caller → Prop where
  | idle : Free call .idle
  | acquiring (offset : ℕ) (options : TemporaryFileIoOptions) : Free call (.acquiring call offset options)
  | awaiting (sequence offset : ℕ) (options : TemporaryFileIoOptions) :
    Free call (.awaiting sequence call offset options)

def FileWorker.queue (worker : FileWorker) (ticket : ℕ) (operation : FileOperation) (payload : Bytes)
    (options : TemporaryFileIoOptions) : FileWorker :=
  { worker with
    state := { worker.state with
      buffer := payload ++ worker.state.buffer.drop payload.length
      bytes := payload.length
      operation := operation
      options := options
      ticket := some ticket
      result := none
      sequence := worker.state.sequence + 1
      pending := true } }

def FileWorker.stop (worker : FileWorker) : FileWorker :=
  { worker with state := { worker.state with stopping := true } }

/-- A native operation has succeeded, and left the file so. -/
inductive FileWorker.Succeeded (worker : FileWorker) (file : NativeFile) (bytes offset : ℕ)
    (options : TemporaryFileIoOptions) : FileOperation → NativeFile → Prop where
  | write (room : file.refuses = false) (all : bytes ≤ offset) :
    Succeeded worker file bytes offset options .write (file.written (worker.state.buffer.take bytes))
  | complete {file' : NativeFile} (answers : CompletionAnswers)
      (done : file.complete options answers = (file',.ok ())) :
    Succeeded worker file bytes offset options .complete file'

/-- The moves of a writer over the slots. -/
inductive Writer.Moved (slots : FileWorkerSlots) (w : Writer) : FileWorkerSlots → Writer → Prop where
  | failed {call : WriterCall} (e : TemporaryFileError) (free : w.caller.Free call) :
    Moved slots w slots (w.return_ call (.error e))
  | directFailed {call : WriterCall} (file : NativeFile) (e : TemporaryFileError) (idle : w.caller = .idle)
      (alone : w.worker = none) : Moved slots w slots ({ w with file := file }.return_ call (.error e))
  | directWrote {bytes : Bytes} {options : TemporaryFileIoOptions} {rounds : List WriteRound}
      {file : NativeFile} (idle : w.caller = .idle) (alone : w.worker = none) (open_ : w.completed = false)
      (wrote : w.file.write bytes options rounds = some (file,.ok ())) :
    Moved slots w slots ({ w with file := file }.return_ (.write bytes) (.ok ()))
  | directCompleted {options : TemporaryFileIoOptions} {answers : CompletionAnswers} {file : NativeFile}
      (idle : w.caller = .idle) (alone : w.worker = none) (open_ : w.completed = false)
      (done : w.file.complete options answers = (file,.ok ())) :
    Moved slots w slots ({ w with file := file, completed := true }.return_ .complete (.ok ()))
  | begun (call : WriterCall) (options : TemporaryFileIoOptions) {worker : FileWorker}
      (idle : w.caller = .idle) (open_ : w.completed = false)
      (isolated : w.worker = some worker ∨ w.worker = none ∧ worker = {}) :
    Moved slots w slots { w with worker := some worker, caller := .acquiring call 0 options }
  | acquired {call : WriterCall} {offset ticket : ℕ} {options : TemporaryFileIoOptions} {moment : Moment}
      {slots' : FileWorkerSlots} (caller : w.caller = .acquiring call offset options)
      (got : slots.acquire options moment = some (slots',.ok ticket)) :
    Moved slots w slots' { w with caller := .acquired ticket call offset options }
  | rejected {call : WriterCall} {offset ticket : ℕ} {options : TemporaryFileIoOptions}
      {worker : FileWorker} (caller : w.caller = .acquired ticket call offset options)
      (isolated : w.worker = some worker) :
    Moved slots w (slots.release ticket .caller)
      ({ w with worker := some worker }.return_ call (.error ⟨.invalidState,0⟩))
  | queued {call : WriterCall} {offset ticket : ℕ} {options : TemporaryFileIoOptions}
      {worker : FileWorker} (caller : w.caller = .acquired ticket call offset options)
      (isolated : w.worker = some worker) (free : worker.state.pending = false)
      (running : worker.state.stopping = false) :
    Moved slots w slots { w with
      worker := some (worker.queue ticket (operation call) (piece offset call) options)
      caller := .awaiting (worker.state.sequence + 1) call offset options }
  | advanced {bytes : Bytes} {offset sequence : ℕ} {options : TemporaryFileIoOptions} {worker : FileWorker}
      (caller : w.caller = .awaiting sequence (.write bytes) offset options)
      (isolated : w.worker = some worker) (finished : worker.state.completed = sequence)
      (succeeded : worker.state.result = some (.ok ()))
      (more : offset + (piece offset (.write bytes)).length < bytes.length) :
    Moved slots w slots
      { w with caller := .acquiring (.write bytes) (offset + (piece offset (.write bytes)).length) options }
  | wrote {bytes : Bytes} {offset sequence : ℕ} {options : TemporaryFileIoOptions} {worker : FileWorker}
      (caller : w.caller = .awaiting sequence (.write bytes) offset options)
      (isolated : w.worker = some worker) (finished : worker.state.completed = sequence)
      (succeeded : worker.state.result = some (.ok ()))
      (all : bytes.length ≤ offset + (piece offset (.write bytes)).length) :
    Moved slots w slots (w.return_ (.write bytes) (.ok ()))
  | finishing {offset sequence : ℕ} {options : TemporaryFileIoOptions} {worker : FileWorker}
      (caller : w.caller = .awaiting sequence .complete offset options)
      (isolated : w.worker = some worker) (finished : worker.state.completed = sequence)
      (succeeded : worker.state.result = some (.ok ())) :
    Moved slots w slots { w with worker := some worker.stop, caller := .joining }
  | joined {state : WorkerState} (caller : w.caller = .joining)
      (isolated : w.worker = some ⟨state,.exited⟩) :
    Moved slots w slots ({ w with worker := none, completed := true }.return_ .complete (.ok ()))
  | destroyed (idle : w.caller = .idle) (alone : w.worker = none) :
    Moved slots w slots { w with caller := .gone }
  | abandoned {worker : FileWorker} (idle : w.caller = .idle) (isolated : w.worker = some worker) :
    Moved slots w slots { w with
      worker := some worker.stop
      caller := .abandoning worker.state.ticket }
  | orphaned {ticket : ℕ} (caller : w.caller = .abandoning (some ticket)) :
    Moved slots w (slots.orphan ticket) { w with caller := .gone }
  | left (caller : w.caller = .abandoning none) : Moved slots w slots { w with caller := .gone }
  | woke {state : WorkerState} (isolated : w.worker = some ⟨state,.waiting⟩) (queued : state.pending = true) :
    Moved slots w slots { w with
      worker := some ⟨state,.running state.operation state.bytes state.options state.sequence 0⟩ }
  | exited {state : WorkerState} (isolated : w.worker = some ⟨state,.waiting⟩) (free : state.pending = false)
      (stopped : state.stopping = true) : Moved slots w slots { w with worker := some ⟨state,.exited⟩ }
  | ran {state : WorkerState} {bytes sequence offset offset' : ℕ} {options : TemporaryFileIoOptions}
      {round : WriteRound} {file : NativeFile}
      (isolated : w.worker = some ⟨state,.running .write bytes options sequence offset⟩)
      (moved : w.file.writeRound (state.buffer.take bytes) offset options round = (file,.ok offset')) :
    Moved slots w slots { w with
      worker := some ⟨state,.running .write bytes options sequence offset'⟩
      file := file }
  | ended {state : WorkerState} {operation : FileOperation} {bytes sequence offset : ℕ}
      {options : TemporaryFileIoOptions} {result : Except TemporaryFileError Unit} {file : NativeFile}
      (isolated : w.worker = some ⟨state,.running operation bytes options sequence offset⟩)
      (outcome : result = .ok () → FileWorker.Succeeded ⟨state,.running operation bytes options sequence offset⟩
        w.file bytes offset options operation file) :
    Moved slots w slots { w with worker := some ⟨state,.ended sequence result⟩, file := file }
  | published {state : WorkerState} {sequence : ℕ} {result : Except TemporaryFileError Unit}
      (isolated : w.worker = some ⟨state,.ended sequence result⟩) :
    Moved slots w slots { w with
      worker := some
        ⟨{ state with result := some result, completed := sequence, pending := false, ticket := none },
          .releasing state.ticket⟩ }
  | settled {state : WorkerState} {ticket : ℕ} (isolated : w.worker = some ⟨state,.releasing (some ticket)⟩) :
    Moved slots w (slots.release ticket .worker) { w with worker := some ⟨state,.waiting⟩ }
  | rested {state : WorkerState} (isolated : w.worker = some ⟨state,.releasing none⟩) :
    Moved slots w slots { w with worker := some ⟨state,.waiting⟩ }

/-- An acquisition fails and changes nothing, or takes one of the free places. -/
theorem FileWorkerSlots.acquire_cases {slots slots' : FileWorkerSlots} {options : TemporaryFileIoOptions}
    {moment : Moment} {r : Except TemporaryFileError ℕ}
    (h : slots.acquire options moment = some (slots',r)) :
    (∃ e, r = .error e ∧ slots' = slots) ∨
    (r = .ok slots.tickets.length ∧ slots.active < maximumWorkers ∧
      slots' = { slots with active := slots.active + 1, tickets := slots.tickets ++ [{}] }) := by
  unfold acquire at h
  dsimp only at h
  split at h
  · have hpair : slots = slots' ∧ _ := Prod.mk.inj (Option.some.inj h)
    exact .inl ⟨_,hpair.2.symm,hpair.1.symm⟩
  · split at h
    · rename_i havailable
      split at h
      · have hpair : slots = slots' ∧ _ := Prod.mk.inj (Option.some.inj h)
        exact .inl ⟨_,hpair.2.symm,hpair.1.symm⟩
      · rename_i horphaned
        have hpair := Prod.mk.inj (Option.some.inj h)
        exact .inr ⟨hpair.2.symm,havailable.resolve_right horphaned,hpair.1.symm⟩
    · exact absurd h (by simp)

theorem FileWorker.enqueue_cases (worker : FileWorker) (slots : FileWorkerSlots) (ticket : ℕ)
    (operation : FileOperation) (payload : Bytes) (options : TemporaryFileIoOptions) :
    worker.enqueue slots ticket operation payload options =
        (worker,slots.release ticket .caller,.error ⟨.invalidState,0⟩) ∨
    (worker.state.stopping = false ∧ worker.state.pending = false ∧
      worker.enqueue slots ticket operation payload options =
        (worker.queue ticket operation payload options,slots,.ok (worker.state.sequence + 1))) := by
  unfold enqueue
  split
  · exact .inl rfl
  · rename_i hfree
    simp only [Bool.or_eq_true,not_or,Bool.not_eq_true] at hfree
    exact .inr ⟨hfree.1.1,hfree.1.2,rfl⟩

/-- A wait ends in success only with the published success of the caller's own operation. -/
theorem FileWorker.outcome_ok {worker : FileWorker} {sequence : ℕ} {options : TemporaryFileIoOptions}
    {moment : Moment} (h : worker.outcome sequence options moment = .ok ()) :
    worker.state.completed = sequence ∧ worker.state.result = some (.ok ()) := by
  unfold outcome at h
  split at h
  · exact absurd h (by simp)
  · split at h
    · rename_i hcompleted
      refine ⟨hcompleted,?_⟩
      cases hresult : worker.state.result with
      | none => simp [hresult] at h
      | some r => simpa [hresult] using h
    · exact absurd h (by simp)

namespace Writer
variable {slots slots' : FileWorkerSlots} {w w' : Writer}

theorem moved_of_pair {slots1 : FileWorkerSlots} {w1 : Writer} (h : Moved slots w slots1 w1)
    (heq : some (slots1,w1) = some (slots',w')) : Moved slots w slots' w' := by
  have hpair : slots1 = slots' ∧ w1 = w' := Prod.mk.inj (Option.some.inj heq)
  obtain ⟨rfl,rfl⟩ := hpair
  exact h

theorem direct_moved {call : WriterCall} {options : TemporaryFileIoOptions} {invocation : Invocation}
    (hidle : w.caller = .idle) (hopen : w.completed = false) (halone : w.worker = none)
    (h : w.direct options invocation call = some w') : Moved slots w slots w' := by
  cases call with
  | write bytes =>
    simp only [direct,Option.map_eq_some_iff] at h
    obtain ⟨⟨file,result⟩,hwrite,rfl⟩ := h
    cases result with
    | error e => exact .directFailed file e hidle halone
    | ok u => exact .directWrote hidle halone hopen hwrite
  | complete =>
    unfold direct at h
    rcases hcomplete : w.file.complete options invocation.answers with ⟨file,e | u⟩
    · rw [hcomplete] at h
      obtain rfl := Option.some.inj h
      exact .directFailed file e hidle halone
    · rw [hcomplete] at h
      obtain rfl := Option.some.inj h
      exact .directCompleted hidle halone hopen hcomplete

theorem invoke_moved {call : WriterCall} {options : TemporaryFileIoOptions} {invocation : Invocation}
    (hidle : w.caller = .idle) (h : w.invoke call options invocation = some w') :
    Moved slots w slots w' := by
  have hfree : w.caller.Free call := hidle ▸ .idle
  unfold invoke at h
  split at h
  · obtain rfl := Option.some.inj h
    exact .failed _ hfree
  · rename_i hopen
    have hopen' : w.completed = false := Bool.eq_false_iff.mpr hopen
    unfold ensureWorker at h
    split at h
    · rename_i e hensure
      obtain rfl := Option.some.inj h
      exact .failed e hfree
    · rename_i w1 hensure
      split at hensure
      · obtain rfl := Except.ok.inj hensure
        cases hworker : w.worker with
        | none =>
          rw [if_pos (by rw [hworker]; rfl)] at h
          exact direct_moved hidle hopen' hworker h
        | some worker =>
          rw [if_neg (by simp [hworker])] at h
          obtain rfl := Option.some.inj h
          have hbegun : Moved slots w slots
              { w with worker := some worker, caller := .acquiring call 0 options } :=
            .begun call options hidle hopen' (.inl hworker)
          rwa [← hworker] at hbegun
      · rename_i hspawn
        split at hensure
        · exact absurd hensure (by simp)
        · obtain rfl := Except.ok.inj hensure
          obtain rfl := Option.some.inj h
          have hnone : w.worker = none := by
            cases hworker : w.worker with
            | none => rfl
            | some worker => simp [hworker] at hspawn
          exact .begun call options hidle hopen' (.inr ⟨hnone,rfl⟩)

theorem acquire_moved {allocated : Bool} {moment : Moment}
    (h : w.step slots (.acquire allocated moment) = some (slots',w')) : Moved slots w slots' w' := by
  unfold step at h
  dsimp only at h
  split at h
  · rename_i call offset options hcaller
    have hfree : w.caller.Free call := hcaller ▸ .acquiring offset options
    split at h
    · split at h
      · exact absurd h (by simp)
      · rename_i slots1 e hacquire
        rcases FileWorkerSlots.acquire_cases hacquire with ⟨e',-,rfl⟩ | ⟨hok,-⟩
        · exact moved_of_pair (.failed e hfree) h
        · exact absurd hok (by simp)
      · rename_i slots1 ticket hacquire
        exact moved_of_pair (.acquired hcaller hacquire) h
    · exact moved_of_pair (.failed _ hfree) h
  · exact absurd h (by simp)

theorem enqueue_moved (h : w.step slots .enqueue = some (slots',w')) : Moved slots w slots' w' := by
  unfold step at h
  dsimp only at h
  split at h
  · rename_i ticket call offset options worker hcaller hworker
    rcases worker.enqueue_cases slots ticket (operation call) (piece offset call) options with
      hrejected | ⟨hrunning,hfree,hqueued⟩
    · rw [hrejected] at h
      exact moved_of_pair (.rejected hcaller hworker) h
    · rw [hqueued] at h
      exact moved_of_pair (.queued hcaller hworker hfree hrunning) h
  · exact absurd h (by simp)

theorem await_moved {moment : Moment} (h : w.step slots (.await moment) = some (slots',w')) :
    Moved slots w slots' w' := by
  unfold step at h
  dsimp only at h
  split at h
  · rename_i sequence call offset options worker hcaller hworker
    split at h
    · exact moved_of_pair (.failed _ (hcaller ▸ .awaiting sequence offset options)) h
    · rename_i houtcome
      obtain ⟨hfinished,hsucceeded⟩ := FileWorker.outcome_ok houtcome
      cases call with
      | write bytes =>
        unfold proceed at h
        dsimp only at h
        split at h
        · rename_i hmore
          exact moved_of_pair (.advanced hcaller hworker hfinished hsucceeded hmore) h
        · rename_i hall
          exact moved_of_pair (.wrote hcaller hworker hfinished hsucceeded (Nat.not_lt.mp hall)) h
      | complete => exact moved_of_pair (.finishing hcaller hworker hfinished hsucceeded) h
  · exact absurd h (by simp)

theorem caller_moved (h : w.step slots .join = some (slots',w') ∨ w.step slots .destroy = some (slots',w') ∨
    w.step slots .orphan = some (slots',w')) : Moved slots w slots' w' := by
  unfold step at h
  dsimp only at h
  rcases h with h | h | h
  · split at h
    · rename_i state hcaller hworker
      exact moved_of_pair (.joined hcaller hworker) h
    · exact absurd h (by simp)
  · split at h
    · rename_i hcaller hworker
      exact moved_of_pair (.destroyed hcaller hworker) h
    · rename_i worker hcaller hworker
      exact moved_of_pair (.abandoned hcaller hworker) h
    · exact absurd h (by simp)
  · split at h
    · rename_i ticket hcaller
      exact moved_of_pair (.orphaned hcaller) h
    · rename_i hcaller
      exact moved_of_pair (.left hcaller) h
    · exact absurd h (by simp)

theorem native_moved {step : NativeStep} (h : w.step slots (.native step) = some (slots',w')) :
    Moved slots w slots' w' := by
  unfold Writer.step at h
  dsimp only at h
  split at h
  · rename_i worker hworker
    obtain ⟨state,thread⟩ := worker
    rw [Option.map_eq_some_iff] at h
    obtain ⟨⟨worker1,file⟩,hnative,heq⟩ := h
    refine moved_of_pair ?_ (congrArg some heq)
    unfold FileWorker.native at hnative
    split at hnative
    · rename_i operation bytes options sequence offset hthread
      obtain rfl : thread = _ := hthread
      split at hnative
      · obtain ⟨rfl,rfl⟩ : _ ∧ _ := Prod.mk.inj (Option.some.inj hnative)
        exact .ended hworker (fun hok => absurd hok (by simp))
      · rename_i answers
        cases operation with
        | write => exact absurd hnative (by simp)
        | complete =>
          obtain ⟨rfl,rfl⟩ : _ ∧ _ := Prod.mk.inj (Option.some.inj hnative)
          exact .ended hworker (fun hok => .complete answers (Prod.ext rfl hok))
      · rename_i round
        cases operation with
        | complete => exact absurd hnative (by simp)
        | write =>
          dsimp only at hnative
          split at hnative
          · obtain ⟨rfl,rfl⟩ : _ ∧ _ := Prod.mk.inj (Option.some.inj hnative)
            exact .ended hworker (fun hok => absurd hok (by simp))
          · rename_i hopen
            split at hnative
            · rename_i hall
              obtain ⟨rfl,rfl⟩ : _ ∧ _ := Prod.mk.inj (Option.some.inj hnative)
              exact .ended hworker (fun _ => .write (Bool.eq_false_iff.mpr hopen) hall)
            · split at hnative
              · obtain ⟨rfl,rfl⟩ : _ ∧ _ := Prod.mk.inj (Option.some.inj hnative)
                exact .ended hworker (fun hok => absurd hok (by simp))
              · rename_i hround
                obtain ⟨rfl,rfl⟩ : _ ∧ _ := Prod.mk.inj (Option.some.inj hnative)
                exact .ran hworker hround
    · exact absurd hnative (by simp)
  · exact absurd h (by simp)

theorem worker_moved (h : w.step slots .wake = some (slots',w') ∨ w.step slots .publish = some (slots',w') ∨
    w.step slots .settle = some (slots',w')) : Moved slots w slots' w' := by
  cases hworker : w.worker with
  | none => rcases h with h | h | h <;> simp [Writer.step,hworker] at h
  | some worker =>
    obtain ⟨state,thread⟩ := worker
    rcases h with h | h | h
    · simp only [Writer.step,hworker,Option.map_eq_some_iff] at h
      obtain ⟨worker1,hwake,heq⟩ := h
      refine moved_of_pair ?_ (congrArg some heq)
      unfold FileWorker.wake at hwake
      split at hwake
      · rename_i hthread
        obtain rfl : thread = _ := hthread
        split at hwake
        · rename_i hqueued
          obtain rfl := Option.some.inj hwake
          exact .woke hworker hqueued
        · rename_i hfree
          split at hwake
          · rename_i hstopped
            obtain rfl := Option.some.inj hwake
            exact .exited hworker (Bool.eq_false_iff.mpr hfree) hstopped
          · exact absurd hwake (by simp)
      · exact absurd hwake (by simp)
    · simp only [Writer.step,hworker,Option.map_eq_some_iff] at h
      obtain ⟨worker1,hpublish,heq⟩ := h
      refine moved_of_pair ?_ (congrArg some heq)
      unfold FileWorker.publish at hpublish
      split at hpublish
      · rename_i hthread
        obtain rfl : thread = _ := hthread
        obtain rfl := Option.some.inj hpublish
        exact .published hworker
      · exact absurd hpublish (by simp)
    · simp only [Writer.step,hworker,Option.map_eq_some_iff] at h
      obtain ⟨⟨worker1,slots1⟩,hsettle,heq⟩ := h
      refine moved_of_pair ?_ (congrArg some heq)
      unfold FileWorker.settle at hsettle
      split at hsettle
      · rename_i ticket hthread
        obtain rfl : thread = _ := hthread
        obtain ⟨rfl,rfl⟩ : _ ∧ _ := Prod.mk.inj (Option.some.inj hsettle)
        cases ticket with
        | none => exact .rested hworker
        | some ticket => exact .settled hworker
      · exact absurd hsettle (by simp)

theorem step_moved {action : WriterStep} (h : w.step slots action = some (slots',w')) :
    Moved slots w slots' w' := by
  cases action with
  | invoke call options invocation =>
    simp only [Writer.step] at h
    split at h
    · rename_i hidle
      rw [Option.map_eq_some_iff] at h
      obtain ⟨w1,hinvoke,heq⟩ := h
      exact moved_of_pair (invoke_moved hidle hinvoke) (congrArg some heq)
    · exact absurd h (by simp)
  | acquire allocated moment => exact acquire_moved h
  | enqueue => exact enqueue_moved h
  | await moment => exact await_moved h
  | join => exact caller_moved (.inl h)
  | destroy => exact caller_moved (.inr (.inl h))
  | orphan => exact caller_moved (.inr (.inr h))
  | wake => exact worker_moved (.inl h)
  | native step => exact native_moved h
  | publish => exact worker_moved (.inr (.inl h))
  | settle => exact worker_moved (.inr (.inr h))

end Writer

end SpareNode.Storage
