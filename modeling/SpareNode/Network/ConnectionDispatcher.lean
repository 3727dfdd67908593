import SpareNode.Library.RingBuffer
import SpareNode.Network.ConnectionAdmission

/-! # The connection dispatcher

The state that the producers, the admission thread, the workers and a stopper share, and what each
of them does to it in one critical section. A promotion takes the connection out of its slot
before it takes the lock, so between the two the connection is in no container. Connections are
told apart by their socket; what became of them is kept in a history that the code does not have.
-/
namespace SpareNode.Network

inductive DispatchErrorCode where
  | invalidWorkerCount | invalidPendingConnectionLimit | missingConnectionHandler | invalidConnection
  | stopped | cancelled | workerStartFailed | resourceAllocationFailed | invalidAdmissionConfig
  | admissionStartFailed
deriving DecidableEq, Repr

/-- The limits of a dispatcher that `create` accepts; `admission` is there when it is enabled. -/
structure DispatcherLimits where
  workerCount : ℕ
  pendingConnectionLimit : ℕ
  admission : Option ConnectionAdmissionOptions
  workers : 0 < workerCount
  pending : 0 < pendingConnectionLimit

/-- The limits of a server with one worker, whose admission reads the head of an HTTP request. -/
def serverLimits : DispatcherLimits where
  workerCount := 1
  pendingConnectionLimit := 128
  admission := some serverAdmission
  workers := by decide
  pending := by decide

/-- What has happened to the connections, oldest first. -/
structure DispatchHistory (ι : Type) where
  submitted : List ι := []
  enteredReady : List ι := []
  handed : List (ℕ × ι) := []
  dropped : List ι := []

/-- `ConnectionDispatcher::Impl`. -/
structure Dispatcher (ι : Type) where
  ready : Ring (ι × TcpConnection)
  accepted : Ring (ι × TcpConnection)
  admissions : List (Option (ι × AdmissionEntry))
  promoting : Option (ι × TcpConnection)
  ownedCount : ℕ
  stopping : Bool
  history : DispatchHistory ι

/-- A branch that calls `std::terminate`. -/
inductive Termination where
  | noFreeSlot | emptyHead
deriving DecidableEq, Repr

namespace Dispatcher
variable {ι : Type} (limits : DispatcherLimits)

def start : Dispatcher ι where
  ready := .empty _ limits.pendingConnectionLimit
  accepted := .empty _ limits.pendingConnectionLimit
  admissions := List.replicate (if limits.admission.isSome then limits.pendingConnectionLimit else 0) none
  promoting := none
  ownedCount := 0
  stopping := false
  history := {}

def enqueueReady (socket : ι) (connection : TcpConnection) (s : Dispatcher ι) : Dispatcher ι :=
  { s with
    ready := s.ready.push (socket,connection)
    history := { s.history with enteredReady := s.history.enteredReady ++ [socket] } }

/-- `submit` up to the end of its wait: no answer stands for a producer that goes on waiting. -/
def submit (socket : ι) (connection : TcpConnection) (isOpen cancelled : Bool) (s : Dispatcher ι) :
    Option (Except DispatchErrorCode Unit) × Dispatcher ι :=
  if !isOpen then (some (.error .invalidConnection),s)
  else if cancelled then (some (.error .cancelled),s)
  else if s.stopping then (some (.error .stopped),s)
  else if limits.pendingConnectionLimit ≤ s.ownedCount then (none,s)
  else
    let owned := { s with
      ownedCount := s.ownedCount + 1
      history := { s.history with submitted := s.history.submitted ++ [socket] } }
    if limits.admission.isSome then
      (some (.ok ()),{ owned with accepted := owned.accepted.push (socket,connection) })
    else (some (.ok ()),enqueueReady socket connection owned)

/-- The critical section of `request_stop`. -/
def requestStop (s : Dispatcher ι) : Dispatcher ι :=
  if s.stopping then s
  else
    { s with
      stopping := true
      ready := s.ready.clear
      accepted := s.accepted.clear
      ownedCount := 0
      history := { s.history with
        dropped := s.history.dropped ++ (s.ready.slots ++ s.accepted.slots).filterMap (Option.map Prod.fst) } }

/-- `dequeue` by a worker. -/
def dequeue (worker : ℕ) (s : Dispatcher ι) : Except Termination (Dispatcher ι) :=
  match s.ready.pop with
  | none => .error .emptyHead
  | some ((socket,_),ready) => .ok
      { s with
        ready := ready
        ownedCount := s.ownedCount - 1
        history := { s.history with handed := s.history.handed ++ [(worker,socket)] } }

/-- The critical section of `worker_loop`; a worker that finds nothing waits, or returns after a stop. -/
def work (worker : ℕ) (s : Dispatcher ι) : Except Termination (Dispatcher ι) :=
  if s.stopping || s.ready.count = 0 then .ok s else dequeue worker s

/-- The loop of `drain_accepted`, by the number of connections that are left. -/
def drainLoop : ℕ → Dispatcher ι → Except Termination (Dispatcher ι)
  | 0,s => .ok s
  | left + 1,s =>
    match s.admissions.findIdx? Option.isNone with
    | none => .error .noFreeSlot
    | some freeSlot =>
      match s.accepted.pop with
      | none => .error .emptyHead
      | some ((socket,connection),accepted) =>
        drainLoop left
          { s with
            accepted := accepted
            admissions := s.admissions.set freeSlot (some (socket,.start connection)) }

def drainAccepted (s : Dispatcher ι) : Except Termination (Dispatcher ι) :=
  if s.stopping then .ok s else drainLoop s.accepted.count s

/-- What the admission thread does to one slot without the lock: `inspect_admission`,
`promote_expired` or `promote_all_admissions` there. A promoted connection leaves its slot. -/
def inspect (index : ℕ) (event : AdmissionEvent) (s : Dispatcher ι) : Dispatcher ι :=
  match limits.admission, s.admissions[index]? with
  | some options, some (some (socket,entry)) =>
    match (Admission.waiting entry).step options event with
    | .waiting grown => { s with admissions := s.admissions.set index (some (socket,grown)) }
    | .promoted _ connection => { s with
        admissions := s.admissions.set index none
        promoting := some (socket,connection) }
  | _, _ => s

/-- The critical section of `promote`. -/
def publish (s : Dispatcher ι) : Dispatcher ι :=
  match s.promoting with
  | none => s
  | some (socket,connection) =>
    let settled := { s with promoting := none }
    if s.stopping then
      { settled with history := { s.history with dropped := s.history.dropped ++ [socket] } }
    else enqueueReady socket connection settled

/-- The end of `admission_loop`. -/
def leaveAdmission (s : Dispatcher ι) : Dispatcher ι :=
  { s with
    admissions := s.admissions.map (fun _ => none)
    history := { s.history with
      dropped := s.history.dropped ++ s.admissions.filterMap (Option.map Prod.fst) } }

end Dispatcher

inductive DispatchStep (ι : Type) where
  | submit (socket : ι) (connection : TcpConnection) (isOpen cancelled : Bool)
  | drainAccepted
  | inspect (index : ℕ) (event : AdmissionEvent)
  | publish
  | leaveAdmission
  | work (worker : ℕ)
  | requestStop

namespace Dispatcher
variable {ι : Type} (limits : DispatcherLimits)

/-- One step. The admission thread finishes a promotion before it does anything else, leaves its
loop only after a stop, and there are no workers beyond the configured ones. -/
def step (s : Dispatcher ι) : DispatchStep ι → Except Termination (Dispatcher ι)
  | .submit socket connection isOpen cancelled => .ok (s.submit limits socket connection isOpen cancelled).2
  | .drainAccepted => if s.promoting.isSome then .ok s else s.drainAccepted
  | .inspect index event => if s.promoting.isSome then .ok s else .ok (s.inspect limits index event)
  | .publish => .ok s.publish
  | .leaveAdmission => if s.promoting.isSome || !s.stopping then .ok s else .ok s.leaveAdmission
  | .work worker => if limits.workerCount ≤ worker then .ok s else s.work worker
  | .requestStop => .ok s.requestStop

def run (steps : List (DispatchStep ι)) : Except Termination (Dispatcher ι) :=
  steps.foldlM (step limits) (start limits)

end Dispatcher
end SpareNode.Network
