import SpareNode.Network.SocketPoller

/-! # Cancellable waits

`wait_for_socket_with_options` sleeps in `poll` on a socket and on the reader of a wake channel, and a thread that
requests a stop sends a datagram to that channel. The two threads, the kernel and the clock take their steps in any
order; what each of them does in one step is what the code does between two points where the others can come in.
-/
namespace SpareNode.Network

/-- What a wait is called with; a token that no one can stop makes it a wait without a wake channel. -/
structure WaitCall where
  operation : NetworkOperation
  interest : SocketWaitInterest
  deadline : Option ℤ
  cancellable : Bool
  /-- The datagrams that the reader's socket can hold. -/
  wakeCapacity : ℕ
  wakeCapacity_pos : 0 < wakeCapacity

/-- Where the thread that requests the stop is: it has set the flag before it runs the callback. -/
inductive StopRequester where
  | idle | notifying | done
deriving DecidableEq, Repr

inductive WaitPhase where
  /-- The two looks of `interruption_status`. -/
  | checkingStop | checkingDeadline
  /-- `ensure_initialized`, then the construction of the stop callback. -/
  | initializing | arming
  /-- In `poll` with a timeout. -/
  | polling (timeout : ℤ)
  /-- `poll` has answered zero; the poller looks at the clock. -/
  | elapsed
  /-- The poller has timed out; the wait looks at the token. -/
  | expired
  /-- `drain` of the wake channel, after the events of the reader and of the socket. -/
  | draining (wake operation : PollEvents)
  /-- The rest of `inspect_wake_entry`. -/
  | inspecting (wake operation : PollEvents)
  /-- The destruction of the stop callback. -/
  | leaving (result : Except NetworkError SocketWaitStatus)
  | returned (result : Except NetworkError SocketWaitStatus)

/-- The shared state. The events that `poll` has reported of the socket are kept in a list that the code does not
have. -/
structure WaitState where
  phase : WaitPhase := .checkingStop
  requester : StopRequester := .idle
  /-- The stop callback is registered with the token. -/
  registered : Bool := false
  initialized : Bool := false
  /-- Datagrams on their way to the reader, and in its socket. -/
  inFlight : ℕ := 0
  wakes : ℕ := 0
  now : ℤ := 0
  /-- What the kernel would report of the socket, and of faults of the reader's. -/
  socketState : PollEvents := 0
  wakeState : PollEvents := 0
  reports : List PollEvents := []

/-- What the kernel answers to the call that the waiting thread is in. -/
inductive KernelAnswer where
  | proceeds
  /-- A timeout of `poll`. -/
  | zero
  | fails (code : ℤ)
deriving DecidableEq, Repr

namespace WaitState
variable (call : WaitCall)

def stopRequested (s : WaitState) : Bool := s.requester ≠ .idle

def deadlinePassed (s : WaitState) : Bool :=
  match call.deadline with
  | some deadline => deadline ≤ s.now
  | none => false

def socketEvents (s : WaitState) : PollEvents := (operationEntry call.interest).reported s.socketState

def wakeEvents (s : WaitState) : PollEvents :=
  if call.cancellable then
    wakeEntry.reported ((if 0 < s.wakes then nativeReadableEvent else 0) ||| s.wakeState &&& nativeFaultEvents)
  else 0

/-- The wait has its result; with a stop callback that is destroyed first. -/
def finish (result : Except NetworkError SocketWaitStatus) (s : WaitState) : WaitState :=
  { s with phase := if call.cancellable then .leaving result else .returned result }

/-- The call of `poll`, with the timeout of this moment. -/
def enterPoll (s : WaitState) : WaitState :=
  { s with phase := .polling (nativeTimeoutMilliseconds call.deadline s.now) }

/-- `poll` reports events: those of the reader are looked at first. -/
def reportEvents (s : WaitState) : WaitState :=
  let reported := { s with reports := s.reports ++ [s.socketEvents call] }
  if call.cancellable then
    if (wakeEntry.polled (s.wakeEvents call)).readable then
      { reported with phase := .draining (s.wakeEvents call) (s.socketEvents call) }
    else { reported with phase := .inspecting (s.wakeEvents call) (s.socketEvents call) }
  else
    reported.finish call
      (inspectOperationEntry call.operation call.interest ((operationEntry call.interest).polled (s.socketEvents call)))

/-- The construction of the stop callback runs it at once when the stop has been requested before. -/
def arm (s : WaitState) : WaitState :=
  if s.stopRequested then { s with inFlight := s.inFlight + 1 } else { s with registered := true }

/-- `inspect_wake_entry` behind its drain, and what the wait does with it. -/
def inspectWake (wake operation : PollEvents) (s : WaitState) : WaitState :=
  let entry := wakeEntry.polled wake
  if s.stopRequested then s.finish call (.ok .cancelled)
  else if entry.invalid || entry.error || entry.hangup then s.finish call (.error (invalidWaitResult call.operation))
  else if entry.readable then s.enterPoll call
  else
    s.finish call
      (inspectOperationEntry call.operation call.interest ((operationEntry call.interest).polled operation))

/-- The waiting thread goes on; none while the kernel, or a running callback, holds it. -/
def proceed (answer : KernelAnswer) (s : WaitState) : Option WaitState :=
  match s.phase with
  | .checkingStop => some (if s.stopRequested then { s with phase := .returned (.ok .cancelled) }
      else { s with phase := .checkingDeadline })
  | .checkingDeadline => some (if s.deadlinePassed call then { s with phase := .returned (.ok .timedOut) }
      else if call.cancellable then { s with phase := .initializing } else s.enterPoll call)
  | .initializing =>
    if s.initialized then some { s with phase := .arming }
    else
      match answer with
      | .fails code => some { s with phase := .returned (.error ⟨call.operation,.socket,code⟩) }
      | _ => some { s with initialized := true, phase := .arming }
  | .arming => some (s.arm.enterPoll call)
  | .polling timeout =>
    match answer with
    | .proceeds =>
      if s.socketEvents call = 0 ∧ s.wakeEvents call = 0 then none else some (s.reportEvents call)
    | .zero => if timeout < 0 then none else some { s with phase := .elapsed }
    | .fails code =>
      if pollWasInterrupted code then some (s.enterPoll call)
      else some (s.finish call (.error ⟨call.operation,.socket,code⟩))
  | .elapsed =>
    some (if call.deadline.isSome && !s.deadlinePassed call then s.enterPoll call else { s with phase := .expired })
  | .expired =>
    some (s.finish call (.ok (if call.cancellable && s.stopRequested then .cancelled else .timedOut)))
  | .draining wake operation =>
    match answer with
    | .proceeds =>
      if 0 < s.wakes then some { s with wakes := s.wakes - 1 }
      else some { s with phase := .inspecting wake operation }
    | _ => some { s with phase := .inspecting wake operation }
  | .inspecting wake operation => some (s.inspectWake call wake operation)
  | .leaving result =>
    if s.requester = .notifying then none
    else some { s with registered := false, phase := .returned result }
  | .returned _ => none

end WaitState

/-- The steps of the threads, the kernel and the clock. -/
inductive WaitStep where
  /-- `request_stop`, which runs a registered callback next. -/
  | requestStop
  /-- The callback: `notify`. -/
  | notify
  | deliver
  | tick (now : ℤ)
  | socketChanges (state : PollEvents)
  | wakeChanges (state : PollEvents)
  | proceed (answer : KernelAnswer)

namespace WaitState
variable (call : WaitCall)

/-- One step; one that is not possible leaves everything as it is. -/
def step (s : WaitState) : WaitStep → WaitState
  | .requestStop =>
    if call.cancellable && !s.stopRequested then
      { s with requester := if s.registered then .notifying else .done }
    else s
  | .notify => if s.requester = .notifying then { s with requester := .done, inFlight := s.inFlight + 1 } else s
  | .deliver =>
    if 0 < s.inFlight then
      { s with inFlight := s.inFlight - 1, wakes := if s.wakes < call.wakeCapacity then s.wakes + 1 else s.wakes }
    else s
  | .tick now => if s.now ≤ now then { s with now := now } else s
  | .socketChanges state => { s with socketState := state }
  | .wakeChanges state => { s with wakeState := state }
  | .proceed answer => (s.proceed call answer).getD s

def run (s : WaitState) (steps : List WaitStep) : WaitState := steps.foldl (step call) s

/-- A state in which a wait begins: the channel may hold datagrams of waits before, and the stop may have been
requested already. -/
structure Fresh (s : WaitState) : Prop where
  phase : s.phase = .checkingStop
  unregistered : s.registered = false
  requester : s.requester ≠ .notifying
  token : call.cancellable = false → s.requester = .idle

end WaitState

def WaitPhase.result : WaitPhase → Option (Except NetworkError SocketWaitStatus)
  | .leaving result | .returned result => some result
  | _ => none

/-- The wait is between the construction of its callback and the end of its destruction. -/
def WaitPhase.armed : WaitPhase → Bool
  | .polling _ | .elapsed | .expired | .draining _ _ | .inspecting _ _ | .leaving _ => true
  | _ => false

/-- The wait sleeps, or will sleep again without a look at the token. -/
def WaitPhase.sleeps : WaitPhase → Bool
  | .polling _ | .elapsed => true
  | _ => false

/-- The token is looked at before the wait returns. -/
def WaitPhase.watches : WaitPhase → Bool
  | .checkingStop | .polling _ | .elapsed | .expired | .draining _ _ | .inspecting _ _ => true
  | _ => false

end SpareNode.Network
