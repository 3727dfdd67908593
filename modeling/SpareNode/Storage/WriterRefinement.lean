import SpareNode.Storage.WriterHandover

/-! # Isolated writes deliver what direct writes deliver

While every call of a writer has succeeded, its file has received exactly the payloads in order,
wherever the caller and the worker stand; a completion is the last thing a file receives.
-/
namespace SpareNode.Storage
open Concurrency

def WriterCall.payload : WriterCall → Bytes
  | .write bytes => bytes
  | .complete => []

def callsPayload (calls : List WriterCall) : Bytes := (calls.map WriterCall.payload).flatten

/-- A file that has received exactly what some calls asked for. -/
def Received (calls : List WriterCall) (file : NativeFile) : Prop :=
  (WriterCall.complete ∉ calls ∧ file.Holds (callsPayload calls)) ∨
  ∃ writes, calls = writes ++ [.complete] ∧ WriterCall.complete ∉ writes ∧ file.Closed (callsPayload calls)

/-- The same calls on the file itself, each with success. -/
inductive DirectRun : List WriterCall → NativeFile → Prop where
  | start : DirectRun [] {}
  | write {calls : List WriterCall} {file file' : NativeFile} {bytes : Bytes}
      {options : TemporaryFileIoOptions} {rounds : List WriteRound} (before : DirectRun calls file)
      (wrote : file.write bytes options rounds = some (file',.ok ())) :
    DirectRun (calls ++ [.write bytes]) file'
  | complete {calls : List WriterCall} {file file' : NativeFile} {options : TemporaryFileIoOptions}
      {answers : CompletionAnswers} (before : DirectRun calls file)
      (done : file.complete options answers = (file',.ok ())) :
    DirectRun (calls ++ [.complete]) file'

theorem callsPayload_append (calls more : List WriterCall) :
    callsPayload (calls ++ more) = callsPayload calls ++ callsPayload more := by
  rw [callsPayload,List.map_append,List.flatten_append,callsPayload,callsPayload]

theorem callsPayload_write (bytes : Bytes) : callsPayload [.write bytes] = bytes := by
  simp [callsPayload,WriterCall.payload]

theorem callsPayload_complete : callsPayload [.complete] = [] := rfl

theorem Received.write {calls : List WriterCall} {file file' : NativeFile} {bytes : Bytes}
    {options : TemporaryFileIoOptions} {rounds : List WriteRound} (h : Received calls file)
    (hwrote : file.write bytes options rounds = some (file',.ok ())) :
    Received (calls ++ [.write bytes]) file' := by
  rcases h with ⟨hnone,hholds⟩ | ⟨writes,-,-,hrefuses,-⟩
  · refine .inl ⟨by simp [hnone],?_⟩
    rw [callsPayload_append,callsPayload_write]
    exact hholds.write hwrote
  · rw [NativeFile.write,if_pos hrefuses] at hwrote
    exact NativeFile.not_ok (Option.some.inj hwrote)

theorem Received.complete {calls : List WriterCall} {file file' : NativeFile}
    {options : TemporaryFileIoOptions} {answers : CompletionAnswers} (h : Received calls file)
    (hdone : file.complete options answers = (file',.ok ())) : Received (calls ++ [.complete]) file' := by
  rcases h with ⟨hnone,hholds⟩ | ⟨writes,-,-,hrefuses,-⟩
  · refine .inr ⟨calls,rfl,hnone,?_⟩
    rw [callsPayload_append,callsPayload_complete,List.append_nil]
    exact hholds.complete hdone
  · rw [NativeFile.complete,if_pos hrefuses] at hdone
    exact NativeFile.not_ok hdone

theorem directRun_received {calls : List WriterCall} {file : NativeFile} (h : DirectRun calls file) :
    Received calls file := by
  induction h with
  | start => exact .inl ⟨List.not_mem_nil,holds_new⟩
  | write before wrote ih => exact ih.write wrote
  | complete before done ih => exact ih.complete done

theorem Received.bytes {calls : List WriterCall} {file : NativeFile} (h : Received calls file) :
    eventBytes file.events = callsPayload calls ∧
      file.events.count .completed = calls.count .complete := by
  rcases h with ⟨hnone,hholds⟩ | ⟨writes,rfl,hnone,-,events,hevents,hbytes,hfresh⟩
  · refine ⟨hholds.content,?_⟩
    rw [List.count_eq_zero_of_not_mem hholds.incomplete,List.count_eq_zero_of_not_mem hnone]
  · refine ⟨?_,?_⟩
    · rw [hevents,eventBytes_append,hbytes]
      exact List.append_nil _
    · rw [hevents,List.count_append,List.count_append,List.count_eq_zero_of_not_mem hfresh,
        List.count_eq_zero_of_not_mem hnone]
      rfl

namespace Writer

def Succeeded (w : Writer) : Prop := ∀ r ∈ w.returned, r.2 = .ok ()

def calls (w : Writer) : List WriterCall := w.returned.map Prod.fst

def Quiet (w : Writer) : Prop := ∀ worker, w.worker = some worker → worker.state.pending = false

/-- The part of a call's payload in front of the next piece. -/
def handed (offset : ℕ) : WriterCall → Bytes
  | .write bytes => bytes.take offset
  | .complete => []

/-- What a call's operation leaves when it has succeeded. -/
def Done (w : Writer) (offset : ℕ) (call : WriterCall) : Prop :=
  match call with
  | .write bytes => w.file.Holds (callsPayload w.calls ++ bytes.take offset ++ piece offset (.write bytes))
  | .complete => w.file.Closed (callsPayload w.calls)

def Ready (w : Writer) (offset : ℕ) (call : WriterCall) : Prop :=
  w.file.Holds (callsPayload w.calls ++ handed offset call)

/-- An operation between its queueing and its caller's return. -/
structure InFlight (w : Writer) (worker : FileWorker) (offset : ℕ) (call : WriterCall) : Prop where
  queued : worker.state.pending = true → worker.state.operation = operation call ∧
    worker.state.bytes = (piece offset call).length ∧
    worker.state.buffer.take (piece offset call).length = piece offset call
  running : ∀ op bytes options sequence n, worker.thread = .running op bytes options sequence n →
    w.file.Holds (callsPayload w.calls ++ handed offset call ++ (piece offset call).take n)
  ended : ∀ sequence, worker.thread = .ended sequence (.ok ()) → w.Done offset call
  waiting : worker.state.pending = true → (∀ op bytes options sequence n,
    worker.thread ≠ .running op bytes options sequence n) →
    (∀ sequence result, worker.thread ≠ .ended sequence result) → w.Ready offset call
  published : worker.state.pending = false → worker.state.result = some (.ok ()) → w.Done offset call

def Open (w : Writer) : Prop := w.completed = false ∧ WriterCall.complete ∉ w.calls

def Settled (w : Writer) : Prop :=
  w.Quiet ∧ Received w.calls w.file ∧ (w.completed = false → WriterCall.complete ∉ w.calls)

/-- What the file has received, by the place of the calling thread. -/
def Content (w : Writer) : Prop :=
  match w.caller with
  | .idle => w.Settled
  | .acquiring call offset _ => w.Quiet ∧ w.Open ∧ w.Ready offset call
  | .acquired _ call offset _ => w.Quiet ∧ w.Open ∧ w.Ready offset call
  | .awaiting _ call offset _ => w.Open ∧ ∃ worker, w.worker = some worker ∧ w.InFlight worker offset call
  | .joining => w.Quiet ∧ w.Open ∧ w.file.Closed (callsPayload w.calls)
  | .abandoning _ => w.Settled
  | .gone => w.Settled

variable {slots slots' : FileWorkerSlots} {w w' : Writer}

theorem succeeded_return {call : WriterCall} {result : Except TemporaryFileError Unit}
    (h : (w.return_ call result).Succeeded) : w.Succeeded ∧ result = .ok () := by
  refine ⟨fun r hr => h r (List.mem_append_left _ hr),?_⟩
  exact h (call,result) (List.mem_append_right _ (List.mem_singleton_self _))

theorem calls_return (call : WriterCall) (result : Except TemporaryFileError Unit) :
    (w.return_ call result).calls = w.calls ++ [call] := by
  simp [calls,return_]

theorem not_succeeded {call : WriterCall} {e : TemporaryFileError} {p : Prop}
    (h : (w.return_ call (.error e)).Succeeded) : p :=
  absurd (succeeded_return h).2 (by simp)

theorem Settled.holds (h : w.Settled) (hopen : w.completed = false) :
    WriterCall.complete ∉ w.calls ∧ w.file.Holds (callsPayload w.calls) := by
  have hnone := h.2.2 hopen
  rcases h.2.1 with hholds | ⟨writes,hcalls,-⟩
  · exact hholds
  · exact absurd (hcalls ▸ List.mem_append_right writes (List.mem_singleton_self _)) hnone

theorem piece_append (bytes : Bytes) (offset : ℕ) :
    bytes.take offset ++ piece offset (.write bytes) =
      bytes.take (offset + (piece offset (.write bytes)).length) := by
  have hpiece : piece offset (.write bytes) =
      (bytes.drop offset).take (piece offset (.write bytes)).length := by
    rw [piece,List.length_take]
    exact (List.take_eq_take_min).trans rfl
  rw [List.take_add]
  exact congrArg (bytes.take offset ++ ·) hpiece

/-- A move of the worker: without a pending operation it must leave the file alone. -/
theorem Content.worker_moved {x y : FileWorker} {file : NativeFile} (h : w.Content)
    (hx : w.worker = some x)
    (hquiet : x.state.pending = false → y.state.pending = false ∧ file = w.file)
    (hflight : ∀ offset call, w.InFlight x offset call →
      ({ w with worker := some y, file := file } : Writer).InFlight y offset call) :
    ({ w with worker := some y, file := file } : Writer).Content := by
  have hquietNext (hq : w.Quiet) :
      ({ w with worker := some y, file := file } : Writer).Quiet ∧ file = w.file := by
    obtain ⟨hy,hfile⟩ := hquiet (hq x hx)
    refine ⟨?_,hfile⟩
    intro other hother
    obtain rfl := Option.some.inj hother
    exact hy
  have hsettled (hs : w.Settled) : ({ w with worker := some y, file := file } : Writer).Settled := by
    obtain ⟨hq,rfl⟩ := hquietNext hs.1
    exact ⟨hq,hs.2⟩
  unfold Content at h ⊢
  dsimp only
  cases hcaller : w.caller with
  | idle =>
    rw [hcaller] at h
    exact hsettled h
  | acquiring call offset options =>
    rw [hcaller] at h
    obtain ⟨hq,rfl⟩ := hquietNext h.1
    exact ⟨hq,h.2⟩
  | acquired ticket call offset options =>
    rw [hcaller] at h
    obtain ⟨hq,rfl⟩ := hquietNext h.1
    exact ⟨hq,h.2⟩
  | awaiting sequence call offset options =>
    rw [hcaller] at h
    obtain ⟨hopen,other,hother,hold⟩ := h
    obtain rfl := Option.some.inj (hother.symm.trans hx)
    refine ⟨hopen,y,rfl,?_⟩
    rw [← hcaller]
    exact hflight offset call hold
  | joining =>
    rw [hcaller] at h
    obtain ⟨hq,rfl⟩ := hquietNext h.1
    exact ⟨hq,h.2⟩
  | abandoning ticket =>
    rw [hcaller] at h
    exact hsettled h
  | gone =>
    rw [hcaller] at h
    exact hsettled h

theorem InFlight.woke {state : WorkerState} {offset : ℕ} {call : WriterCall}
    (h : w.InFlight ⟨state,.waiting⟩ offset call) (hqueued : state.pending = true)
    {y : FileWorker} (hy : y = ⟨state,.running state.operation state.bytes state.options state.sequence 0⟩) :
    ({ w with worker := some y } : Writer).InFlight y offset call := by
  subst hy
  refine ⟨h.queued,?_,by simp,?_,h.published⟩
  · rintro op bytes options sequence n ⟨⟩
    rw [List.take_zero,List.append_nil]
    exact h.waiting hqueued (by simp) (by simp)
  · intro _ hnot
    exact absurd rfl (hnot _ _ _ _ _)

theorem InFlight.ran {state : WorkerState} {bytes sequence n n' offset : ℕ} {call : WriterCall}
    {options : TemporaryFileIoOptions} {round : WriteRound} {file : NativeFile}
    (h : w.InFlight ⟨state,.running .write bytes options sequence n⟩ offset call)
    (hpending : state.pending = true) (hbytes : bytes = state.bytes)
    (hround : w.file.writeRound (state.buffer.take bytes) n options round = (file,.ok n')) :
    ({ w with worker := some ⟨state,.running .write bytes options sequence n'⟩, file := file } :
      Writer).InFlight ⟨state,.running .write bytes options sequence n'⟩ offset call := by
  obtain ⟨hoperation,hlength,hbuffer⟩ := h.queued hpending
  have hpayload : state.buffer.take bytes = piece offset call := by
    rw [hbytes,hlength]
    exact hbuffer
  rw [hpayload] at hround
  have hnext := (h.running _ _ _ _ _ rfl).writeRound hround
  refine ⟨h.queued,?_,by simp,?_,?_⟩
  · rintro op bytes' options' sequence' m ⟨⟩
    exact hnext
  · intro _ hnot
    exact absurd rfl (hnot _ _ _ _ _)
  · intro hfree
    exact absurd (hfree.symm.trans hpending) (by decide)

theorem InFlight.finished {state : WorkerState} {op : FileOperation} {bytes sequence n offset : ℕ}
    {call : WriterCall} {options : TemporaryFileIoOptions} {result : Except TemporaryFileError Unit}
    {file : NativeFile} (h : w.InFlight ⟨state,.running op bytes options sequence n⟩ offset call)
    (hpending : state.pending = true) (hbytes : bytes = state.bytes) (hop : op = state.operation)
    (houtcome : result = .ok () → FileWorker.Succeeded ⟨state,.running op bytes options sequence n⟩ w.file
      bytes n options op file) :
    ({ w with worker := some ⟨state,.ended sequence result⟩, file := file } : Writer).InFlight
      ⟨state,.ended sequence result⟩ offset call := by
  obtain ⟨hoperation,hlength,hbuffer⟩ := h.queued hpending
  have hheld := h.running _ _ _ _ _ rfl
  refine ⟨h.queued,by simp,?_,?_,?_⟩
  · rintro sequence' ⟨⟩
    cases call with
    | write payload =>
      obtain rfl : op = .write := hop.trans hoperation
      cases houtcome rfl with
      | write room all =>
        rw [List.take_of_length_le (by rw [← hlength,← hbytes]; exact all)] at hheld
        exact ⟨hheld.open_,hheld.content,hheld.incomplete⟩
    | complete =>
      obtain rfl : op = .complete := hop.trans hoperation
      cases houtcome rfl with
      | complete answers done =>
        have hempty : callsPayload w.calls ++ handed offset .complete ++ (piece offset .complete).take n =
            callsPayload w.calls := by simp [handed,piece]
        rw [hempty] at hheld
        exact hheld.complete done
  · intro _ _ hnot
    exact absurd rfl (hnot _ _)
  · intro hfree
    exact absurd (hfree.symm.trans hpending) (by decide)

theorem InFlight.published_move {state : WorkerState} {sequence offset : ℕ} {call : WriterCall}
    {result : Except TemporaryFileError Unit} (h : w.InFlight ⟨state,.ended sequence result⟩ offset call)
    {y : FileWorker} (hthread : y.thread = .releasing state.ticket) (hpending : y.state.pending = false)
    (hresult : y.state.result = some result) :
    ({ w with worker := some y } : Writer).InFlight y offset call := by
  have hfree {p : Prop} (hp : y.state.pending = true) : p := absurd (hp.symm.trans hpending) (by decide)
  refine ⟨fun hp => hfree hp,?_,?_,fun hp => hfree hp,?_⟩
  · intro op bytes options sequence' n hrunning
    exact absurd (hthread.symm.trans hrunning) (by simp)
  · intro sequence' hended
    exact absurd (hthread.symm.trans hended) (by simp)
  · intro _ hok
    obtain rfl := Option.some.inj (hresult.symm.trans hok)
    exact h.ended sequence rfl

theorem InFlight.rested {state : WorkerState} {thread thread' : WorkerThread} {offset : ℕ}
    {call : WriterCall} (h : w.InFlight ⟨state,thread⟩ offset call)
    (hbefore : thread = .waiting ∨ ∃ ticket, thread = .releasing ticket)
    (hafter : thread' = .waiting ∨ thread' = .exited) :
    ({ w with worker := some ⟨state,thread'⟩ } : Writer).InFlight ⟨state,thread'⟩ offset call := by
  refine ⟨h.queued,?_,?_,fun hp _ _ => h.waiting hp ?_ ?_,h.published⟩
  · rintro op bytes options sequence n rfl
    rcases hafter with hafter | hafter <;> exact absurd hafter (by simp)
  · rintro sequence rfl
    rcases hafter with hafter | hafter <;> exact absurd hafter (by simp)
  · rintro op bytes options sequence n rfl
    rcases hbefore with hbefore | ⟨ticket,hbefore⟩ <;> exact absurd hbefore (by simp)
  · rintro sequence result rfl
    rcases hbefore with hbefore | ⟨ticket,hbefore⟩ <;> exact absurd hbefore (by simp)

theorem Settled.return_ok {call : WriterCall} (hquiet : w.Quiet) (hreceived : Received (w.calls ++ [call]) w.file)
    (hlast : w.completed = false → WriterCall.complete ∉ w.calls ++ [call]) :
    (w.return_ call (.ok ())).Content := by
  refine ⟨hquiet,?_,?_⟩
  · rw [calls_return]
    exact hreceived
  · intro hopen
    rw [calls_return]
    exact hlast hopen

/-- A caller that sees the success of its own operation finds it done, and nothing else under way. -/
theorem InFlight.seen {worker : FileWorker} {offset sequence : ℕ} {call : WriterCall}
    (h : w.InFlight worker offset call) (hworker : worker.Coherent)
    (hsequence : sequence = worker.state.sequence) (hfinished : worker.state.completed = sequence)
    (hsucceeded : worker.state.result = some (.ok ())) :
    worker.state.pending = false ∧ w.Done offset call := by
  have hfree : worker.state.pending = false := by
    have hcount := hworker.count
    cases hpending : worker.state.pending with
    | false => rfl
    | true =>
      rw [hpending] at hcount
      simp only [if_true] at hcount
      omega
  exact ⟨hfree,h.published hfree hsucceeded⟩

theorem quiet_of {worker : FileWorker} (hworker : w.worker = some worker)
    (hfree : worker.state.pending = false) : w.Quiet := by
  intro other hother
  obtain rfl := Option.some.inj (hworker.symm.trans hother)
  exact hfree

theorem InFlight.queue {worker : FileWorker} {ticket offset : ℕ} {call : WriterCall}
    {options : TemporaryFileIoOptions} (hworker : worker.Coherent) (hfree : worker.state.pending = false)
    (hready : w.Ready offset call) {w1 : Writer} (hfile : w1.file = w.file) (hcalls : w1.calls = w.calls) :
    w1.InFlight (worker.queue ticket (operation call) (piece offset call) options) offset call := by
  refine ⟨fun _ => ⟨rfl,rfl,List.take_left⟩,?_,?_,?_,fun hp => absurd hp (by simp [FileWorker.queue])⟩
  · intro op bytes options' sequence n hthread
    exact absurd ((hworker.running _ _ _ _ _ hthread).1.symm.trans hfree) (by decide)
  · intro sequence hthread
    exact absurd ((hworker.ended _ _ hthread).1.symm.trans hfree) (by decide)
  · intro _ _ _
    rw [Ready,hfile,hcalls]
    exact hready

/-- What a caller knows that stops waiting for its operation with a success. -/
theorem Content.awaited {worker : FileWorker} {call : WriterCall} {sequence offset : ℕ}
    {options : TemporaryFileIoOptions} (h : w.Content) (hcoherent : w.Coherent)
    (hcaller : w.caller = .awaiting sequence call offset options) (hworker : w.worker = some worker)
    (hfinished : worker.state.completed = sequence) (hsucceeded : worker.state.result = some (.ok ())) :
    worker.state.pending = false ∧ w.Open ∧ w.Done offset call := by
  have hawaiting := hcoherent.caller
  rw [CallerCoherent,hcaller] at hawaiting
  rw [Content,hcaller] at h
  obtain ⟨hopen,other,hother,hflight⟩ := h
  obtain rfl := Option.some.inj (hother.symm.trans hworker)
  obtain ⟨hfree,hdone⟩ := hflight.seen (hcoherent.worker _ hworker) (hawaiting.alone hworker).2
    hfinished hsucceeded
  exact ⟨hfree,hopen,hdone⟩

/-- Every move keeps what is known of the file while all calls succeed. -/
theorem Moved.content (hmoved : Moved slots w slots' w') (hcoherent : w.Coherent)
    (h : w.Succeeded → w.Content) (hsucceeded : w'.Succeeded) : w'.Content := by
  cases hmoved with
  | failed e free => exact not_succeeded hsucceeded
  | directFailed file e idle alone => exact not_succeeded hsucceeded
  | rejected caller isolated => exact not_succeeded hsucceeded
  | directWrote idle alone open_ wrote =>
    have hold := h (succeeded_return hsucceeded).1
    rw [Content,idle] at hold
    obtain ⟨hnone,-⟩ := hold.holds open_
    refine Settled.return_ok ?_ (hold.2.1.write wrote) ?_
    · simp [Quiet,alone]
    · intro _
      have hnone' : WriterCall.complete ∉ w.calls := hnone
      simpa [calls] using hnone'
  | directCompleted idle alone open_ done =>
    have hold := h (succeeded_return hsucceeded).1
    rw [Content,idle] at hold
    refine Settled.return_ok ?_ (hold.2.1.complete done) fun hopen => absurd hopen (by simp)
    simp [Quiet,alone]
  | @begun call options worker idle open_ isolated =>
    have hold := h hsucceeded
    rw [Content,idle] at hold
    obtain ⟨hnone,hholds⟩ := hold.holds open_
    refine ⟨?_,⟨open_,hnone⟩,?_⟩
    · intro other hother
      obtain rfl := Option.some.inj hother
      rcases isolated with hsome | ⟨-,rfl⟩
      · exact hold.1 _ hsome
      · rfl
    · cases call with
      | write bytes =>
        change w.file.Holds (callsPayload w.calls ++ bytes.take 0)
        rw [List.take_zero,List.append_nil]
        exact hholds
      | complete =>
        change w.file.Holds (callsPayload w.calls ++ [])
        rw [List.append_nil]
        exact hholds
  | acquired caller got =>
    have hold := h hsucceeded
    rw [Content,caller] at hold
    exact hold
  | @queued call offset ticket options worker caller isolated free running =>
    have hold := h hsucceeded
    rw [Content,caller] at hold
    exact ⟨hold.2.1,_,rfl,InFlight.queue (hcoherent.worker worker isolated) free hold.2.2 rfl rfl⟩
  | @advanced bytes offset sequence options worker caller isolated finished succeeded more =>
    have hold := h hsucceeded
    obtain ⟨hfree,hopen,hdone⟩ := hold.awaited hcoherent caller isolated finished succeeded
    refine ⟨quiet_of isolated hfree,hopen,?_⟩
    change w.file.Holds (callsPayload w.calls ++
      bytes.take (offset + (piece offset (.write bytes)).length))
    rw [← piece_append,← List.append_assoc]
    exact hdone
  | @wrote bytes offset sequence options worker caller isolated finished succeeded all =>
    have hold := h (succeeded_return hsucceeded).1
    obtain ⟨hfree,hopen,hdone⟩ := hold.awaited hcoherent caller isolated finished succeeded
    have hnone : WriterCall.complete ∉ w.calls ++ [.write bytes] := by simpa using hopen.2
    refine Settled.return_ok (quiet_of isolated hfree) (.inl ⟨hnone,?_⟩) fun _ => hnone
    change w.file.Holds (callsPayload w.calls ++ bytes.take offset ++ piece offset (.write bytes)) at hdone
    rw [List.append_assoc,piece_append,List.take_of_length_le all] at hdone
    rw [callsPayload_append,callsPayload_write]
    exact hdone
  | @finishing offset sequence options worker caller isolated finished succeeded =>
    have hold := h hsucceeded
    obtain ⟨hfree,hopen,hdone⟩ := hold.awaited hcoherent caller isolated finished succeeded
    exact ⟨quiet_of rfl hfree,hopen,hdone⟩
  | joined caller isolated =>
    have hold := h (succeeded_return hsucceeded).1
    rw [Content,caller] at hold
    obtain ⟨-,hopen,hclosed⟩ := hold
    refine Settled.return_ok (by simp [Quiet]) (.inr ⟨w.calls,rfl,hopen.2,?_⟩)
      fun hfalse => absurd hfalse (by simp)
    change w.file.Closed (callsPayload (w.calls ++ [.complete]))
    rw [callsPayload_append,callsPayload_complete,List.append_nil]
    exact hclosed
  | destroyed idle alone =>
    have hold := h hsucceeded
    rw [Content,idle] at hold
    exact hold
  | @abandoned worker idle isolated =>
    have hold := h hsucceeded
    rw [Content,idle] at hold
    exact ⟨quiet_of rfl (hold.1 worker isolated),hold.2⟩
  | orphaned caller =>
    have hold := h hsucceeded
    rw [Content,caller] at hold
    exact hold
  | left caller =>
    have hold := h hsucceeded
    rw [Content,caller] at hold
    exact hold
  | @woke state isolated queued =>
    refine (h hsucceeded).worker_moved isolated ?_ fun offset call hold =>
      hold.woke queued rfl
    intro hfree
    exact absurd (hfree.symm.trans queued) (by decide)
  | @exited state isolated free stopped =>
    exact (h hsucceeded).worker_moved isolated (fun _ => ⟨free,rfl⟩) fun offset call hold =>
      hold.rested (.inl rfl) (.inr rfl)
  | @ran state bytes sequence n n' options round file isolated moved =>
    obtain ⟨hpending,-,hbytes,-⟩ := (hcoherent.worker _ isolated).running _ _ _ _ _ rfl
    refine (h hsucceeded).worker_moved isolated ?_ fun offset call hold =>
      hold.ran hpending hbytes moved
    intro hfree
    exact absurd (hfree.symm.trans hpending) (by decide)
  | @ended state op bytes sequence n options result file isolated outcome =>
    obtain ⟨hpending,-,hbytes,hop⟩ := (hcoherent.worker _ isolated).running _ _ _ _ _ rfl
    refine (h hsucceeded).worker_moved isolated ?_ fun offset call hold =>
      hold.finished hpending hbytes hop outcome
    intro hfree
    exact absurd (hfree.symm.trans hpending) (by decide)
  | @published state sequence result isolated =>
    have hpending := ((hcoherent.worker _ isolated).ended _ _ rfl).1
    refine (h hsucceeded).worker_moved isolated ?_ fun offset call hold =>
      hold.published_move rfl rfl rfl
    intro hfree
    exact absurd (hfree.symm.trans hpending) (by decide)
  | @settled state ticket isolated =>
    exact (h hsucceeded).worker_moved isolated (fun hfree => ⟨hfree,rfl⟩) fun offset call hold =>
      hold.rested (.inr ⟨_,rfl⟩) (.inl rfl)
  | @rested state isolated =>
    exact (h hsucceeded).worker_moved isolated (fun hfree => ⟨hfree,rfl⟩) fun offset call hold =>
      hold.rested (.inr ⟨_,rfl⟩) (.inl rfl)

/-- While the worker runs an operation nobody writes to the buffer. -/
theorem Moved.buffer (hmoved : Moved slots w slots' w') (hcoherent : w.Coherent) {state : WorkerState}
    {op : FileOperation} {bytes sequence n : ℕ} {options : TemporaryFileIoOptions}
    (hrunning : w.worker = some ⟨state,.running op bytes options sequence n⟩) :
    ∃ worker, w'.worker = some worker ∧ worker.state.buffer = state.buffer := by
  have hpending := ((hcoherent.worker _ hrunning).running _ _ _ _ _ rfl).1
  have hsame {x : FileWorker} (hx : w.worker = some x) :
      x = ⟨state,.running op bytes options sequence n⟩ := Option.some.inj (hx.symm.trans hrunning)
  cases hmoved with
  | failed e free => exact ⟨_,hrunning,rfl⟩
  | directFailed file e idle alone => exact absurd (alone.symm.trans hrunning) (by simp)
  | directWrote idle alone open_ wrote => exact absurd (alone.symm.trans hrunning) (by simp)
  | directCompleted idle alone open_ done => exact absurd (alone.symm.trans hrunning) (by simp)
  | begun call options' idle open_ isolated =>
    rcases isolated with hsome | ⟨hnone,-⟩
    · exact ⟨_,rfl,by rw [hsame hsome]⟩
    · exact absurd (hnone.symm.trans hrunning) (by simp)
  | acquired caller got => exact ⟨_,hrunning,rfl⟩
  | rejected caller isolated => exact ⟨_,rfl,by rw [hsame isolated]⟩
  | queued caller isolated free running =>
    rw [hsame isolated] at free
    exact absurd (free.symm.trans hpending) (by decide)
  | advanced caller isolated finished succeeded more => exact ⟨_,hrunning,rfl⟩
  | wrote caller isolated finished succeeded all => exact ⟨_,hrunning,rfl⟩
  | finishing caller isolated finished succeeded =>
    exact ⟨_,rfl,by rw [FileWorker.stop,hsame isolated]⟩
  | joined caller isolated => exact absurd (hsame isolated) (by simp)
  | destroyed idle alone => exact absurd (alone.symm.trans hrunning) (by simp)
  | abandoned idle isolated => exact ⟨_,rfl,by rw [FileWorker.stop,hsame isolated]⟩
  | orphaned caller => exact ⟨_,hrunning,rfl⟩
  | left caller => exact ⟨_,hrunning,rfl⟩
  | woke isolated queued => exact absurd (hsame isolated) (by simp)
  | exited isolated free stopped => exact absurd (hsame isolated) (by simp)
  | ran isolated moved => exact ⟨_,rfl,congrArg (fun x => x.state.buffer) (hsame isolated)⟩
  | ended isolated outcome => exact ⟨_,rfl,congrArg (fun x => x.state.buffer) (hsame isolated)⟩
  | published isolated => exact absurd (hsame isolated) (by simp)
  | settled isolated => exact absurd (hsame isolated) (by simp)
  | rested isolated => exact absurd (hsame isolated) (by simp)

theorem Moved.completed (hmoved : Moved slots w slots' w')
    (h : w.completed = true → (WriterCall.complete,Except.ok ()) ∈ w.returned) :
    w'.completed = true → (WriterCall.complete,Except.ok ()) ∈ w'.returned := by
  have hmore {call : WriterCall} {result : Except TemporaryFileError Unit} (hdone : w.completed = true) :
      (WriterCall.complete,Except.ok ()) ∈ (w.return_ call result).returned :=
    List.mem_append_left _ (h hdone)
  have hlast {v : Writer} : (WriterCall.complete,Except.ok ()) ∈ (v.return_ .complete (.ok ())).returned :=
    List.mem_append_right _ (List.mem_singleton_self _)
  cases hmoved with
  | directCompleted idle alone open_ done => exact fun _ => hlast
  | joined caller isolated => exact fun _ => hlast
  | failed e free => exact hmore
  | directFailed file e idle alone => exact hmore
  | directWrote idle alone open_ wrote => exact hmore
  | rejected caller isolated => exact hmore
  | wrote caller isolated finished succeeded all => exact hmore
  | _ => exact h

end Writer

/-- What holds of every writer in every interleaving. -/
structure Writer.Invariant (w : Writer) : Prop where
  coherent : w.Coherent
  content : w.Succeeded → w.Content
  completed : w.completed = true → (WriterCall.complete,Except.ok ()) ∈ w.returned

theorem Writer.Invariant.fresh : ({} : Writer).Invariant :=
  ⟨.fresh,fun _ => ⟨by simp [Quiet],.inl ⟨List.not_mem_nil,holds_new⟩,fun _ => List.not_mem_nil⟩,by simp⟩

theorem Writer.Moved.invariant {slots slots' : FileWorkerSlots} {w w' : Writer}
    (hmoved : Moved slots w slots' w') (h : w.Invariant) : w'.Invariant :=
  ⟨hmoved.coherent h.coherent,hmoved.content h.coherent h.content,hmoved.completed h.completed⟩

variable {ι : Type} [DecidableEq ι]

theorem writers_invariant (moves : List (ι × WriterStep)) (i : ι) :
    ((WriterSystem.after moves).writers i).Invariant :=
  WriterSystem.after_writers .fresh (fun _ _ _ _ hmoved h => hmoved.invariant h) moves i

def Caller.between : Caller → Bool
  | .idle => true
  | .abandoning _ => true
  | .gone => true
  | _ => false

theorem Writer.Content.received {w : Writer} (h : w.Content) (hbetween : w.caller.between = true) :
    Received w.calls w.file := by
  unfold Content at h
  cases hcaller : w.caller with
  | idle =>
    rw [hcaller] at h
    exact h.2.1
  | abandoning ticket =>
    rw [hcaller] at h
    exact h.2.1
  | gone =>
    rw [hcaller] at h
    exact h.2.1
  | acquiring call offset options => simp [hcaller,Caller.between] at hbetween
  | acquired ticket call offset options => simp [hcaller,Caller.between] at hbetween
  | awaiting sequence call offset options => simp [hcaller,Caller.between] at hbetween
  | joining => simp [hcaller,Caller.between] at hbetween

/-- The isolated writer refines the direct one: in every interleaving of any writers, a file whose
calls have all succeeded has received their payloads in order and then their completion, as it does
from the same calls without a worker; an artifact is there only after a completion; one operation at
most is under way, and the buffer stays as it is while the worker runs it. -/
theorem writer_refines_direct (moves : List (ι × WriterStep)) (i : ι) :
    let s := WriterSystem.after moves
    let w := s.writers i
    (w.Succeeded → w.caller.between = true → Received w.calls w.file ∧
      ∀ file, DirectRun w.calls file → eventBytes w.file.events = eventBytes file.events ∧
        w.file.events.count .completed = file.events.count .completed) ∧
    (w.artifact.isSome = true → (WriterCall.complete,Except.ok ()) ∈ w.returned) ∧
    (∀ worker, w.worker = some worker → worker.state.sequence ≤ worker.state.completed + 1 ∧
      ∀ op bytes options sequence n, worker.thread = .running op bytes options sequence n →
        sequence = worker.state.sequence ∧ worker.state.pending = true) ∧
    (∀ j action s' state op bytes options sequence n, s.step j action = some s' →
      w.worker = some ⟨state,.running op bytes options sequence n⟩ →
        ∃ worker, (s'.writers i).worker = some worker ∧ worker.state.buffer = state.buffer) := by
  intro s w
  have hinvariant : w.Invariant := writers_invariant moves i
  refine ⟨?_,?_,?_,
    ?_⟩
  · intro hsucceeded hbetween
    have hreceived := (hinvariant.content hsucceeded).received hbetween
    refine ⟨hreceived,?_⟩
    intro file hdirect
    obtain ⟨hbytes,hcount⟩ := hreceived.bytes
    obtain ⟨hbytes',hcount'⟩ := (directRun_received hdirect).bytes
    exact ⟨hbytes.trans hbytes'.symm,hcount.trans hcount'.symm⟩
  · intro hartifact
    apply hinvariant.completed
    by_contra hopen
    rw [Writer.artifact,if_neg hopen] at hartifact
    exact absurd hartifact (by decide)
  · intro worker hworker
    have hcoherent := hinvariant.coherent.worker worker hworker
    refine ⟨?_,?_⟩
    · have hcount := hcoherent.count
      split at hcount <;> omega
    · intro op bytes options sequence n hthread
      obtain ⟨hpending,hsequence,-⟩ := hcoherent.running _ _ _ _ _ hthread
      exact ⟨hsequence,hpending⟩
  · intro j action s' state op bytes options sequence n hstep hrunning
    obtain ⟨slots,w',hmoved,rfl⟩ := WriterSystem.step_some hstep
    by_cases hij : i = j
    · subst hij
      dsimp only
      rw [Function.update_self]
      exact (Writer.step_moved hmoved).buffer hinvariant.coherent hrunning
    · dsimp only
      rw [Function.update_of_ne hij]
      exact ⟨_,hrunning,rfl⟩

end SpareNode.Storage
