import SpareNode.Network.TcpConnection

/-! # Transfers of a connection

The kernel hands out the peer's stream in pieces of its own choosing, and may answer that a call
was interrupted or would block. A connection's receive repeats such calls; with admission bytes
still unread it does not get to the socket at all.
-/
namespace SpareNode.Network
open Concurrency

/-- What a native receive answers; a transfer moves at most `size + 1` bytes. -/
inductive NativeAnswer where
  | transfer (size : ℕ)
  | interrupted
  | wouldBlock (code : ℤ)
  | failed (code : ℤ)
deriving DecidableEq, Repr

/-- The bytes that `receive_socket` moves out of the peer's stream; none mark its end. -/
def NativeAnswer.moved (requested : ℕ) (stream : Bytes) : NativeAnswer → Bytes
  | .transfer size => stream.take (min requested (size + 1))
  | _ => []

def NativeAnswer.left (requested : ℕ) (stream : Bytes) : NativeAnswer → Bytes
  | .transfer size => stream.drop (min requested (size + 1))
  | _ => stream

inductive SocketWaitStatus where
  | ready | cancelled | timedOut | socketError | socketHangup
deriving DecidableEq, Repr

/-- One round of `perform_io`: the wait for readiness, then the transfer. -/
structure IoAttempt where
  wait : Except NetworkError SocketWaitStatus
  answer : NativeAnswer

def terminalReadiness (status : SocketWaitStatus) : Bool :=
  status = .socketError || status = .socketHangup

/-- `perform_io` for a receive; it has not returned after attempts that are all repeated. -/
def performIo (capacity : ℕ) (stream : Bytes) :
    List IoAttempt → Option (Except NetworkError Bytes × Bytes)
  | [] => none
  | attempt :: rest =>
    match attempt.wait with
    | .error e => some (.error e,stream)
    | .ok .cancelled => some (.error ⟨.receive,.cancellation,0⟩,stream)
    | .ok .timedOut => some (.error ⟨.receive,.timeout,0⟩,stream)
    | .ok status =>
      match attempt.answer with
      | .transfer size =>
        some (.ok ((NativeAnswer.transfer size).moved capacity stream),
          (NativeAnswer.transfer size).left capacity stream)
      | .interrupted => performIo capacity stream rest
      | .wouldBlock code =>
        if terminalReadiness status then some (.error ⟨.receive,.socket,code⟩,stream)
        else performIo capacity stream rest
      | .failed code => some (.error ⟨.receive,.socket,code⟩,stream)

/-- A caller's `receive_with_options`, with the moment and the rounds that it meets. -/
structure ReceiveCall where
  capacity : ℕ
  moment : Moment
  deadline : Option ℤ
  attempts : List IoAttempt

/-- A connection over its socket, of which only the peer's stream matters. -/
structure LiveConnection where
  connection : TcpConnection
  stream : Bytes

/-- Neither the buffer nor an interruption ends the call at once. -/
def ReceiveCall.admitted (call : ReceiveCall) : Bool :=
  0 < call.capacity && interruptionStatus call.moment call.deadline = .none

namespace LiveConnection

/-- `TcpConnection::receive_with_options`; the socket is asked where no prefetched byte is left. -/
def receive (live : LiveConnection) (call : ReceiveCall) :
    Option (LiveConnection × Except NetworkError Bytes) :=
  if call.admitted && live.connection.prefetched.length ≤ live.connection.prefetchedOffset then
    (performIo call.capacity live.stream call.attempts).map fun io =>
      let r := live.connection.receiveWithOptions call.capacity call.moment call.deadline io.1
      (⟨r.1,io.2⟩,r.2)
  else
    let r := live.connection.receiveWithOptions call.capacity call.moment call.deadline (.ok [])
    some (⟨r.1,live.stream⟩,r.2)

end LiveConnection

/-- The bytes that a call hands to its caller. -/
def handed : Except NetworkError Bytes → Bytes
  | .ok bytes => bytes
  | .error _ => []

@[simp] theorem handed_ok (bytes : Bytes) : handed (.ok bytes) = bytes := rfl

@[simp] theorem handed_error (e : NetworkError) : handed (.error e) = [] := rfl

variable {capacity requested : ℕ} {stream : Bytes}

theorem NativeAnswer.moved_append_left (answer : NativeAnswer) :
    answer.moved requested stream ++ answer.left requested stream = stream := by
  cases answer with
  | transfer size => exact List.take_append_drop _ stream
  | interrupted => rfl
  | wouldBlock code => rfl
  | failed code => rfl

theorem NativeAnswer.moved_length (answer : NativeAnswer) :
    (answer.moved requested stream).length ≤ requested := by
  cases answer with
  | transfer size =>
    have h := List.length_take_le (min requested (size + 1)) stream
    exact h.trans (min_le_left _ _)
  | interrupted => exact Nat.zero_le _
  | wouldBlock code => exact Nat.zero_le _
  | failed code => exact Nat.zero_le _

/-- A receive with room moves nothing only at the end of the stream. -/
theorem NativeAnswer.moved_nil {size : ℕ} (hroom : 0 < requested)
    (h : (NativeAnswer.transfer size).moved requested stream = []) : stream = [] := by
  rcases List.take_eq_nil_iff.mp h with hzero | hend
  · omega
  · exact hend

/-- What `perform_io` can return: a piece of the stream, or an error that leaves it alone. -/
theorem performIo_some {attempts : List IoAttempt} {result : Except NetworkError Bytes} {left : Bytes}
    (h : performIo capacity stream attempts = some (result,left)) :
    (∃ size, result = .ok ((NativeAnswer.transfer size).moved capacity stream) ∧
      left = (NativeAnswer.transfer size).left capacity stream) ∨
    (∃ e, result = .error e ∧ left = stream) := by
  induction attempts with
  | nil => exact absurd h (by simp [performIo])
  | cons attempt rest ih =>
    have hstop {e : NetworkError} (hsome : some (Except.error e,stream) = some (result,left)) :
        ∃ e, result = .error e ∧ left = stream := by
      have heq : Except.error e = result ∧ stream = left := Prod.mk.inj (Option.some.inj hsome)
      exact ⟨e,heq.1.symm,heq.2.symm⟩
    unfold performIo at h
    split at h
    · exact .inr (hstop h)
    · exact .inr (hstop h)
    · exact .inr (hstop h)
    · split at h
      · rename_i size _
        have heq := Prod.mk.inj (Option.some.inj h)
        exact .inl ⟨size,heq.1.symm,heq.2.symm⟩
      · exact ih h
      · split at h
        · exact .inr (hstop h)
        · exact ih h
      · exact .inr (hstop h)

end SpareNode.Network
