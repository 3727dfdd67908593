import SpareNode.Foundation.Bytes
import SpareNode.Foundation.Interruption

/-! # Connections

A connection hands out the bytes that admission has consumed before it turns to its socket,
and it looks for an interruption before either. What the socket answers is an argument.
-/
namespace SpareNode.Network
open Concurrency

inductive NetworkOperation where
  | initialize_ | resolveAddress | createSocket | configureSocket | bind | listen | accept | receive
  | send | queryLocalEndpoint | queryPeerEndpoint | shutdownSend
deriving DecidableEq, Repr

inductive NetworkErrorDomain where
  | validation | addressResolution | socket | state | cancellation | timeout
deriving DecidableEq, Repr

structure NetworkError where
  operation : NetworkOperation
  domain : NetworkErrorDomain
  code : ℤ
deriving DecidableEq, Repr

structure TcpEndpoint where
  address : Bytes
  port : ℕ
deriving DecidableEq, Repr

structure TcpConnection where
  peerEndpoint : TcpEndpoint
  acceptedAt : ℤ
  lastReceiveProgress : ℤ
  prefetched : Bytes := []
  prefetchedOffset : ℕ := 0
deriving DecidableEq, Repr

namespace TcpConnection

/-- The connection that `accept` makes at some time. -/
def accepted (peer : TcpEndpoint) (now : ℤ) : TcpConnection where
  peerEndpoint := peer
  acceptedAt := now
  lastReceiveProgress := now

/-- The admission bytes that have not been handed out. -/
def unread (connection : TcpConnection) : Bytes := connection.prefetched.drop connection.prefetchedOffset

/-- `TcpConnection::receive_with_options` into a buffer of some capacity. -/
def receiveWithOptions (connection : TcpConnection) (capacity : ℕ) (moment : Moment)
    (deadline : Option ℤ) (socket : Except NetworkError Bytes) :
    TcpConnection × Except NetworkError Bytes :=
  if capacity = 0 then (connection,.error ⟨.receive,.validation,1⟩)
  else
    match interruptionStatus moment deadline with
    | .cancelled => (connection,.error ⟨.receive,.cancellation,0⟩)
    | .deadlineExceeded => (connection,.error ⟨.receive,.timeout,0⟩)
    | .none =>
      if connection.prefetchedOffset < connection.prefetched.length then
        let available := connection.prefetched.length - connection.prefetchedOffset
        let copied := min available capacity
        let offset := connection.prefetchedOffset + copied
        let bytes := (connection.prefetched.drop connection.prefetchedOffset).take copied
        if offset = connection.prefetched.length then
          ({ connection with prefetched := [], prefetchedOffset := 0 },.ok bytes)
        else ({ connection with prefetchedOffset := offset },.ok bytes)
      else (connection,socket)

/-- A read before its deadline takes the next piece of what admission left. -/
theorem receive_unread {connection : TcpConnection} {capacity : ℕ} {moment : Moment}
    {deadline : Option ℤ} (socket : Except NetworkError Bytes) (hcapacity : capacity ≠ 0)
    (hunread : connection.unread ≠ []) (hopen : interruptionStatus moment deadline = .none) :
    ∃ connection', connection.receiveWithOptions capacity moment deadline socket =
        (connection',.ok (connection.unread.take capacity)) ∧
      connection'.unread = connection.unread.drop capacity ∧
      connection'.peerEndpoint = connection.peerEndpoint ∧
      connection'.acceptedAt = connection.acceptedAt := by
  have hinside : connection.prefetchedOffset < connection.prefetched.length := by
    by_contra hend
    exact hunread (List.drop_eq_nil_of_le (by omega))
  have hsize : connection.unread.length = connection.prefetched.length - connection.prefetchedOffset := by
    simp [unread]
  have htake : connection.unread.take (min (connection.prefetched.length - connection.prefetchedOffset) capacity) =
      connection.unread.take capacity := by
    rw [← hsize,List.take_eq_take_iff]
    omega
  unfold receiveWithOptions
  rw [if_neg hcapacity,hopen]
  dsimp only
  rw [if_pos hinside]
  split
  · rename_i hend
    refine ⟨_,Prod.ext rfl (congrArg Except.ok htake),?_,rfl,rfl⟩
    have hlast : connection.unread.drop capacity = [] := List.drop_eq_nil_of_le (by omega)
    rw [hlast]
    rfl
  · rename_i hmore
    refine ⟨_,Prod.ext rfl (congrArg Except.ok htake),?_,rfl,rfl⟩
    have hfull : min (connection.prefetched.length - connection.prefetchedOffset) capacity = capacity := by omega
    simp only [unread,hfull,List.drop_drop]

end TcpConnection
end SpareNode.Network
