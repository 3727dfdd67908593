import SpareNode.Network.ConnectionIo

/-! # Polling sockets

What a readiness wait asks of the kernel's `poll` and how it reads the answer. The event bits and the error codes
are those of Linux.
-/
namespace SpareNode.Network

abbrev PollEvents := BitVec 16

def nativeReadableEvent : PollEvents := 0x001
def nativeWritableEvent : PollEvents := 0x004
def nativeErrorEvent : PollEvents := 0x008
def nativeHangupEvent : PollEvents := 0x010
def nativeInvalidEvent : PollEvents := 0x020

/-- `POLLERR`, `POLLHUP` and `POLLNVAL` are reported unasked. -/
def nativeFaultEvents : PollEvents := nativeErrorEvent ||| nativeHangupEvent ||| nativeInvalidEvent

structure SocketPollEntry where
  watchReadable : Bool := false
  watchWritable : Bool := false
  readable : Bool := false
  writable : Bool := false
  error : Bool := false
  hangup : Bool := false
  invalid : Bool := false
deriving DecidableEq, Repr

namespace SocketPollEntry

def requestedNativeEvents (entry : SocketPollEntry) : PollEvents :=
  (if entry.watchReadable then nativeReadableEvent else 0) ||| (if entry.watchWritable then nativeWritableEvent else 0)

def clearReadyEvents (entry : SocketPollEntry) : SocketPollEntry :=
  { entry with readable := false, writable := false, error := false, hangup := false, invalid := false }

def storeReadyEvents (entry : SocketPollEntry) (nativeEvents : PollEvents) : SocketPollEntry :=
  { entry with
    readable := nativeEvents &&& nativeReadableEvent != 0
    writable := nativeEvents &&& nativeWritableEvent != 0
    error := nativeEvents &&& nativeErrorEvent != 0
    hangup := nativeEvents &&& nativeHangupEvent != 0
    invalid := nativeEvents &&& nativeInvalidEvent != 0 }

/-- An entry as `NativeSocketPoller::wait` leaves it. -/
def polled (entry : SocketPollEntry) (nativeEvents : PollEvents) : SocketPollEntry :=
  entry.clearReadyEvents.storeReadyEvents nativeEvents

/-- What the kernel reports of an entry whose socket is in a state. -/
def reported (entry : SocketPollEntry) (state : PollEvents) : PollEvents :=
  state &&& (entry.requestedNativeEvents ||| nativeFaultEvents)

end SocketPollEntry

/-- The greatest `int`. -/
def maximumNativeTimeout : ℤ := 2147483647

/-- `native_timeout_milliseconds` at a reading of the clock, in nanoseconds. -/
def nativeTimeoutMilliseconds (deadline : Option ℤ) (now : ℤ) : ℤ :=
  match deadline with
  | none => -1
  | some deadline =>
    if deadline ≤ now then 0
    else
      let remainingMilliseconds := -(-(deadline - now) / 1000000)
      if maximumNativeTimeout ≤ remainingMilliseconds then maximumNativeTimeout else remainingMilliseconds

theorem nativeTimeoutMilliseconds_none (now : ℤ) : nativeTimeoutMilliseconds none now = -1 := rfl

/-- With a deadline the timeout is an `int` that does not wait for ever, and it is the rest of the time rounded up,
unless that is too long for an `int`. -/
theorem nativeTimeoutMilliseconds_some (deadline now : ℤ) :
    0 ≤ nativeTimeoutMilliseconds (some deadline) now ∧
    nativeTimeoutMilliseconds (some deadline) now ≤ maximumNativeTimeout ∧
    (nativeTimeoutMilliseconds (some deadline) now < maximumNativeTimeout →
      deadline ≤ now + nativeTimeoutMilliseconds (some deadline) now * 1000000 ∧
      (now < deadline → now + (nativeTimeoutMilliseconds (some deadline) now - 1) * 1000000 < deadline)) := by
  unfold nativeTimeoutMilliseconds maximumNativeTimeout
  dsimp only
  split
  · omega
  · split <;> omega

inductive SocketWaitInterest where
  | readable | writable
deriving DecidableEq, Repr

def operationEntry (interest : SocketWaitInterest) : SocketPollEntry :=
  { watchReadable := interest = .readable, watchWritable := interest = .writable }

def wakeEntry : SocketPollEntry := { watchReadable := true }

def readyStatus (entry : SocketPollEntry) (interest : SocketWaitInterest) : Option SocketWaitStatus :=
  if entry.error then some .socketError
  else if entry.hangup then some .socketHangup
  else
    let requestedEvent := if interest = .readable then entry.readable else entry.writable
    if requestedEvent then some .ready else none

def invalidWaitResult (operation : NetworkOperation) : NetworkError := ⟨operation,.socket,0⟩

def inspectOperationEntry (operation : NetworkOperation) (interest : SocketWaitInterest) (entry : SocketPollEntry) :
    Except NetworkError SocketWaitStatus :=
  if entry.invalid then .error (invalidWaitResult operation)
  else
    match readyStatus entry interest with
    | some status => .ok status
    | none => .error (invalidWaitResult operation)

/-- `EINTR`. -/
def interruptedCode : ℤ := 4

def pollWasInterrupted (errorCode : ℤ) : Bool := errorCode = interruptedCode

def SocketWaitInterest.event : SocketWaitInterest → PollEvents
  | .readable => nativeReadableEvent
  | .writable => nativeWritableEvent

/-- What a status says of the events that were reported. -/
def SocketWaitStatus.Shows (interest : SocketWaitInterest) (events : PollEvents) : SocketWaitStatus → Prop
  | .ready => events &&& interest.event ≠ 0 ∧ events &&& nativeFaultEvents = 0
  | .socketError => events &&& nativeErrorEvent ≠ 0 ∧ events &&& nativeInvalidEvent = 0
  | .socketHangup => events &&& nativeHangupEvent ≠ 0 ∧ events &&& (nativeErrorEvent ||| nativeInvalidEvent) = 0
  | .cancelled | .timedOut => False

/-- A status of the operation socket is one that the kernel has reported. -/
theorem inspectOperationEntry_cases (operation : NetworkOperation) (interest : SocketWaitInterest) (events : PollEvents) :
    (∃ status, inspectOperationEntry operation interest ((operationEntry interest).polled events) = .ok status ∧
      status.Shows interest events) ∨
    inspectOperationEntry operation interest ((operationEntry interest).polled events) =
      .error (invalidWaitResult operation) := by
  have hsplit (a b : PollEvents) : events &&& (a ||| b) = events &&& a ||| events &&& b := BitVec.and_or_distrib_left
  unfold inspectOperationEntry
  by_cases hinvalid : events &&& nativeInvalidEvent = 0
  swap
  · refine .inr (if_pos ?_)
    simpa [SocketPollEntry.polled,SocketPollEntry.storeReadyEvents] using hinvalid
  have hvalid : ((operationEntry interest).polled events).invalid = false := by
    simpa [SocketPollEntry.polled,SocketPollEntry.storeReadyEvents] using hinvalid
  rw [if_neg (by rw [hvalid]; exact Bool.false_ne_true)]
  unfold readyStatus
  by_cases herror : events &&& nativeErrorEvent = 0
  swap
  · have hentry : ((operationEntry interest).polled events).error = true := by
      simpa [SocketPollEntry.polled,SocketPollEntry.storeReadyEvents] using herror
    rw [if_pos hentry]
    exact .inl ⟨_,rfl,herror,hinvalid⟩
  have hquiet : ((operationEntry interest).polled events).error = false := by
    simpa [SocketPollEntry.polled,SocketPollEntry.storeReadyEvents] using herror
  rw [if_neg (by rw [hquiet]; exact Bool.false_ne_true)]
  by_cases hhangup : events &&& nativeHangupEvent = 0
  swap
  · have hentry : ((operationEntry interest).polled events).hangup = true := by
      simpa [SocketPollEntry.polled,SocketPollEntry.storeReadyEvents] using hhangup
    rw [if_pos hentry]
    exact .inl ⟨_,rfl,hhangup,by rw [hsplit,herror,hinvalid]; rfl⟩
  have hopen : ((operationEntry interest).polled events).hangup = false := by
    simpa [SocketPollEntry.polled,SocketPollEntry.storeReadyEvents] using hhangup
  rw [if_neg (by rw [hopen]; exact Bool.false_ne_true)]
  have hrequested : (if interest = .readable then ((operationEntry interest).polled events).readable
      else ((operationEntry interest).polled events).writable) = (events &&& interest.event != 0) := by
    cases interest <;> rfl
  dsimp only
  rw [hrequested]
  by_cases hevent : events &&& interest.event = 0
  · rw [if_neg (by simpa using hevent)]
    exact .inr rfl
  · rw [if_pos (by simpa using hevent)]
    exact .inl ⟨_,rfl,hevent,by rw [nativeFaultEvents,hsplit,hsplit,herror,hhangup,hinvalid]; rfl⟩

end SpareNode.Network
