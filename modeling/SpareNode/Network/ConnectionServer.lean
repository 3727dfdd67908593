import SpareNode.Network.DispatcherAccounting
import SpareNode.Network.WaitEnds

/-! # The accept loop

The accept thread waits for clients, takes one connection at a time out of the kernel and submits it to the
dispatcher, until a stop is requested or something fails. Its steps come between those of the dispatcher's threads,
of a thread that requests the stop and of the kernel. Which sockets the kernel has handed over, and which of them
the accept thread has closed, is kept in lists that the code does not have.
-/
namespace SpareNode.Network

inductive ConnectionServerFailureKind where
  | acceptError | dispatchError | internalException
deriving DecidableEq, Repr

structure ConnectionServerFailure where
  kind : ConnectionServerFailureKind
  networkError : Option NetworkError := none
  dispatchError : Option DispatchErrorCode := none
deriving DecidableEq, Repr

/-- `EAGAIN`, which is `EWOULDBLOCK` as well. -/
def wouldBlockCode : ℤ := 11

def socketErrorWouldBlock (errorCode : ℤ) : Bool := errorCode = wouldBlockCode

def shouldRetryAccept (errorCode : ℤ) : Bool := errorCode = interruptedCode

inductive EndpointFailure where
  | missingAddress | unknownFamily
  | native (code : ℤ)

def EndpointFailure.error : EndpointFailure → NetworkError
  | .missingAddress => ⟨.queryPeerEndpoint,.validation,1⟩
  | .unknownFamily => ⟨.queryPeerEndpoint,.state,1⟩
  | .native code => ⟨.queryPeerEndpoint,.socket,code⟩

inductive AcceptPhase (ι : Type) where
  /-- The condition of the loop. -/
  | looping
  /-- `wait_for_accept`, and the looks at its result and at the token. -/
  | waiting
  /-- `::accept`, repeated after an interruption. -/
  | accepting
  /-- The rest of `accept_ready_connection`, which owns the socket. -/
  | configuring (socket : ι)
  /-- What `TcpListener::accept` makes of its result. -/
  | deciding (result : Except NetworkError (ι × TcpConnection))
  /-- `accept` has failed. -/
  | unaccepted (error : NetworkError)
  /-- `submit`: its look at the token, then its critical section. -/
  | offering (socket : ι) (connection : TcpConnection)
  | submitting (socket : ι) (connection : TcpConnection)
  /-- `submit` has failed. -/
  | unsubmitted (code : DispatchErrorCode)
  /-- `stop_after_failure`: the dispatcher, then the observer. -/
  | failing (failure : ConnectionServerFailure)
  | reporting (failure : ConnectionServerFailure)
  | ended

def AcceptPhase.inHand {ι : Type} : AcceptPhase ι → List ι
  | .configuring socket | .deciding (.ok (socket,_)) | .offering socket _ | .submitting socket _ => [socket]
  | _ => []

/-- The wait of `TcpListener::accept`, which has no deadline. -/
def listenerWait : WaitCall := ⟨.accept,.readable,none,true,1,Nat.one_pos⟩

structure AcceptState (ι : Type) where
  phase : AcceptPhase ι
  /-- The token and the listener's wake channel, with the wait that goes on in `waiting`. -/
  wait : WaitState
  dispatcher : Dispatcher ι
  opened : List ι := []
  closed : List ι := []
  /-- What the observer has been called with. -/
  failures : List ConnectionServerFailure := []

/-- What the calls of the accept thread answer outside its waits. -/
inductive AcceptAnswer (ι : Type) where
  | accepted (socket : ι)
  | fails (code : ℤ)
  | configureFails (code : ℤ)
  | endpointFails (failure : EndpointFailure)
  /-- An allocation throws. -/
  | throws
  | adopted (connection : TcpConnection)

namespace AcceptState
variable {ι : Type} [DecidableEq ι] (limits : DispatcherLimits)

def stopRequested (s : AcceptState ι) : Bool := s.wait.stopRequested

def startWait (s : AcceptState ι) : AcceptState ι :=
  { s with phase := .waiting, wait := { s.wait with phase := .checkingStop } }

def closeTo (socket : ι) (phase : AcceptPhase ι) (s : AcceptState ι) : AcceptState ι :=
  { s with phase := phase, closed := s.closed ++ [socket] }

/-- The tests of `TcpListener::accept` behind `accept_ready_connection`. -/
def decideAccept (result : Except NetworkError (ι × TcpConnection)) (s : AcceptState ι) : AcceptState ι :=
  match result with
  | .error e =>
    if e.domain = .socket && socketErrorWouldBlock e.code then s.startWait
    else if s.stopRequested then { s with phase := .unaccepted ⟨.accept,.cancellation,0⟩ }
    else { s with phase := .unaccepted e }
  | .ok (socket,connection) =>
    if s.stopRequested then s.closeTo socket (.unaccepted ⟨.accept,.cancellation,0⟩)
    else { s with phase := .offering socket connection }

/-- The critical section of `submit`, with the wait for space that a stop ends. -/
def submitAccepted (socket : ι) (connection : TcpConnection) (s : AcceptState ι) : Option (AcceptState ι) :=
  if s.stopRequested && !(s.dispatcher.stopping || s.dispatcher.ownedCount < limits.pendingConnectionLimit) then
    some (s.closeTo socket (.unsubmitted .cancelled))
  else
    match s.dispatcher.submit limits socket connection true false with
    | (none,_) => none
    | (some (.ok ()),dispatcher) => some { s with phase := .looping, dispatcher := dispatcher }
    | (some (.error code),dispatcher) =>
      some ({ s with dispatcher := dispatcher }.closeTo socket (.unsubmitted code))

/-- The accept thread goes on outside a wait; none while a call holds it, or for an answer to another call. -/
def proceed (answer : AcceptAnswer ι) (s : AcceptState ι) : Option (AcceptState ι) :=
  match s.phase with
  | .looping => some (if s.stopRequested then { s with phase := .ended } else s.startWait)
  | .waiting =>
    match s.wait.phase with
    | .returned (.error e) => some { s with phase := .unaccepted e }
    | .returned (.ok status) => some
        (if status = .cancelled || s.stopRequested then { s with phase := .unaccepted ⟨.accept,.cancellation,0⟩ }
        else { s with phase := .accepting })
    | _ => none
  | .accepting =>
    match answer with
    | .accepted socket =>
      if socket ∈ s.opened then none
      else some { s with phase := .configuring socket, opened := s.opened ++ [socket] }
    | .fails code =>
      if shouldRetryAccept code then some s else some { s with phase := .deciding (.error ⟨.accept,.socket,code⟩) }
    | _ => none
  | .configuring socket =>
    match answer with
    | .configureFails code => some (s.closeTo socket (.deciding (.error ⟨.configureSocket,.socket,code⟩)))
    | .endpointFails failure => some (s.closeTo socket (.deciding (.error failure.error)))
    | .throws => some (s.closeTo socket (.failing { kind := .internalException }))
    | .adopted connection => some { s with phase := .deciding (.ok (socket,connection)) }
    | _ => none
  | .deciding result => some (s.decideAccept result)
  | .unaccepted e => some
      (if s.stopRequested && e.domain = .cancellation then { s with phase := .ended }
      else { s with phase := .failing { kind := .acceptError, networkError := some e } })
  | .offering socket connection => some
      (if s.stopRequested then s.closeTo socket (.unsubmitted .cancelled)
      else { s with phase := .submitting socket connection })
  | .submitting socket connection => s.submitAccepted limits socket connection
  | .unsubmitted code => some
      (if s.stopRequested && (code = .cancelled || code = .stopped) then { s with phase := .ended }
      else { s with phase := .failing { kind := .dispatchError, dispatchError := some code } })
  | .failing failure => some { s with phase := .reporting failure, dispatcher := s.dispatcher.requestStop }
  | .reporting failure => some { s with phase := .ended, failures := s.failures ++ [failure] }
  | .ended => none

end AcceptState

/-- The steps of the accept thread, of its waits with all that goes on around them, and of the other threads of the
dispatcher. -/
inductive AcceptStep (ι : Type) where
  | accept (answer : AcceptAnswer ι)
  | wait (move : WaitStep)
  | dispatch (move : DispatchStep ι)

namespace AcceptState
variable {ι : Type} [DecidableEq ι] (limits : DispatcherLimits)

/-- A step of the wait's world: the waiting thread itself moves only in a wait. -/
def waitStep (move : WaitStep) (s : AcceptState ι) : AcceptState ι :=
  match move, s.phase with
  | .proceed answer, .waiting => { s with wait := s.wait.step listenerWait (.proceed answer) }
  | .proceed _, _ => s
  | move, _ => { s with wait := s.wait.step listenerWait move }

/-- A step of the dispatcher's other threads: nobody but the accept thread submits. -/
def dispatchStep (move : DispatchStep ι) (s : AcceptState ι) : Except Termination (AcceptState ι) :=
  match move with
  | .submit _ _ _ _ => .ok s
  | move =>
    match s.dispatcher.step limits move with
    | .ok dispatcher => .ok { s with dispatcher := dispatcher }
    | .error e => .error e

/-- One step; one that is not possible leaves everything as it is. -/
def step (s : AcceptState ι) : AcceptStep ι → Except Termination (AcceptState ι)
  | .accept answer => .ok ((s.proceed limits answer).getD s)
  | .wait move => .ok (s.waitStep move)
  | .dispatch move => s.dispatchStep limits move

def run (s : AcceptState ι) (steps : List (AcceptStep ι)) : Except Termination (AcceptState ι) :=
  steps.foldlM (step limits) s

def start : AcceptState ι where
  phase := .looping
  wait := {}
  dispatcher := .start limits

end AcceptState
end SpareNode.Network
