import SpareNode.Network.TcpConnection

/-! # Connection admission

The dispatcher's admission thread consumes the beginning of what an accepted connection sends,
and promotes the connection to the workers once that prefix holds a marker or is full, at the
end of the stream, after an error or when a budget has run out. One connection's events are
modelled; the thread treats its slots independently.
-/
namespace SpareNode.Network

def milliseconds (n : ℤ) : ℤ := n * 1000000

structure ConnectionAdmissionOptions where
  maxPrefixBytes : ℕ
  completionMarker : Bytes
  inactivityTimeout : ℤ
  totalTimeout : ℤ

/-- What the HTTP server asks for with the default bounds of its parser and its default budgets. -/
def serverAdmission : ConnectionAdmissionOptions where
  maxPrefixBytes := 40962
  completionMarker := [13,10,13,10]
  inactivityTimeout := 10000
  totalTimeout := 30000

structure AdmissionEntry where
  connection : TcpConnection
  prefixBytes : Bytes
  lastProgress : ℤ
  accepted : ℤ
deriving DecidableEq, Repr

/-- The slot that `drain_accepted` fills. -/
def AdmissionEntry.start (connection : TcpConnection) : AdmissionEntry where
  connection := connection
  prefixBytes := []
  lastProgress := connection.acceptedAt
  accepted := connection.acceptedAt

/-- Whether a text occurs in another, as `string_view::find` reports it. -/
def occurs (text : Bytes) : Bytes → Bool
  | [] => text.isEmpty
  | b :: rest => text.isPrefixOf (b :: rest) || occurs text rest

theorem occurs_iff {text input : Bytes} : occurs text input = true ↔ text <:+: input := by
  induction input with
  | nil => simp [occurs]
  | cons b rest ih => simp [occurs,ih,List.infix_cons_iff]

inductive PromotionReason where
  | endOfStream | prefixFull | markerFound | receiveFailed | expired | pollFailed
deriving DecidableEq, Repr

inductive Admission where
  | waiting (entry : AdmissionEntry)
  | promoted (reason : PromotionReason) (connection : TcpConnection)
deriving DecidableEq, Repr

/-- What one native receive on a readable socket answers. -/
inductive ReceiveOutcome where
  | received (bytes : Bytes)
  | interrupted | wouldBlock | failed
deriving DecidableEq, Repr

/-- `promote`: the worker's connection replays the consumed prefix. -/
def promote (entry : AdmissionEntry) (reason : PromotionReason) : Admission :=
  .promoted reason { entry.connection with prefetched := entry.prefixBytes, prefetchedOffset := 0 }

variable (options : ConnectionAdmissionOptions)

/-- The marker may cross the border to the newly received bytes. -/
def prefixComplete (entry : AdmissionEntry) (previousSize : ℕ) : Bool :=
  let overlap := options.completionMarker.length - 1
  let searchFrom := if overlap < previousSize then previousSize - overlap else 0
  occurs options.completionMarker (entry.prefixBytes.drop searchFrom)

def AdmissionEntry.grow (entry : AdmissionEntry) (bytes : Bytes) (now : ℤ) : AdmissionEntry :=
  if bytes.isEmpty then entry
  else
    { entry with
      connection := { entry.connection with lastReceiveProgress := now }
      prefixBytes := entry.prefixBytes ++ bytes
      lastProgress := now }

/-- `inspect_admission`; an interrupted call is repeated, which is the next event. -/
def inspectAdmission (entry : AdmissionEntry) (now : ℤ) : ReceiveOutcome → Admission
  | .received bytes =>
    let grown := entry.grow bytes now
    if bytes.isEmpty then promote grown .endOfStream
    else if grown.prefixBytes.length = options.maxPrefixBytes then promote grown .prefixFull
    else if prefixComplete options grown entry.prefixBytes.length then promote grown .markerFound
    else .waiting grown
  | .interrupted => .waiting entry
  | .wouldBlock => .waiting entry
  | .failed => promote entry .receiveFailed

def promoteExpired (entry : AdmissionEntry) (now : ℤ) : Admission :=
  if entry.lastProgress + milliseconds options.inactivityTimeout ≤ now ∨
      entry.accepted + milliseconds options.totalTimeout ≤ now then promote entry .expired
  else .waiting entry

inductive AdmissionEvent where
  | readable (now : ℤ) (outcome : ReceiveOutcome)
  | expiryCheck (now : ℤ)
  | pollFailure
deriving DecidableEq, Repr

/-- One event; a promoted connection is the worker's and sees no more of them. -/
def Admission.step : Admission → AdmissionEvent → Admission
  | .promoted reason connection, _ => .promoted reason connection
  | .waiting entry, .readable now outcome => inspectAdmission options entry now outcome
  | .waiting entry, .expiryCheck now => promoteExpired options entry now
  | .waiting entry, .pollFailure => promote entry .pollFailed

/-- A receive asks for no more than what is left of the prefix. -/
def Admission.Fits : Admission → AdmissionEvent → Prop
  | .waiting entry, .readable _ (.received bytes) =>
    entry.prefixBytes.length + bytes.length ≤ options.maxPrefixBytes
  | _, _ => True

/-- The states that admission can reach from a newly accepted connection. -/
inductive Admitted (connection : TcpConnection) : Admission → Prop where
  | start : Admitted connection (.waiting (.start connection))
  | step {state : Admission} {event : AdmissionEvent} (reached : Admitted connection state)
      (fits : state.Fits options event) : Admitted connection (state.step options event)

variable {options}

/-- A waiting connection has room left and no marker yet. -/
structure Waiting (options : ConnectionAdmissionOptions) (entry : AdmissionEntry) : Prop where
  room : entry.prefixBytes.length < options.maxPrefixBytes
  unmarked : ¬options.completionMarker <:+: entry.prefixBytes

/-- What a promotion says about the prefix that the worker replays. -/
structure Promoted (options : ConnectionAdmissionOptions) (reason : PromotionReason)
    (connection : TcpConnection) : Prop where
  offset : connection.prefetchedOffset = 0
  full : reason = .prefixFull → connection.prefetched.length = options.maxPrefixBytes
  marked : reason = .markerFound → options.completionMarker <:+: connection.prefetched

/-- A text that was not there before more input came starts no earlier than the overlap. -/
theorem infix_overlap {text a b : Bytes} (h : text <:+: a ++ b) (ha : ¬text <:+: a) :
    text <:+: (a ++ b).drop (a.length - (text.length - 1)) := by
  obtain ⟨x,y,hxy⟩ := h
  have hlate : a.length < x.length + text.length := by
    by_contra hle
    have hinside : a = (x ++ text) ++ y.take (a.length - (x ++ text).length) := by
      have htake : (a ++ b).take a.length = a := List.take_left
      rw [← hxy,List.take_append,List.take_of_length_le (by simp; omega)] at htake
      exact htake.symm
    exact ha ⟨x,_,hinside.symm⟩
  have hstart : a.length - (text.length - 1) ≤ x.length := by omega
  refine ⟨x.drop (a.length - (text.length - 1)),y,?_⟩
  rw [← hxy,List.append_assoc,List.append_assoc,List.drop_append_of_le_length hstart]

theorem prefixComplete_iff {entry : AdmissionEntry} {before bytes : Bytes}
    (hgrown : entry.prefixBytes = before ++ bytes) (hbefore : ¬options.completionMarker <:+: before) :
    prefixComplete options entry before.length = true ↔
      options.completionMarker <:+: entry.prefixBytes := by
  have hfrom : (if options.completionMarker.length - 1 < before.length then
      before.length - (options.completionMarker.length - 1) else 0) =
      before.length - (options.completionMarker.length - 1) := by
    split <;> omega
  rw [prefixComplete,hfrom,occurs_iff,hgrown]
  constructor
  · intro h
    exact h.trans (List.drop_suffix _ _).isInfix
  · intro h
    exact infix_overlap h hbefore

/-- What admission knows about a connection in each state. -/
def Admission.Sound (options : ConnectionAdmissionOptions) : Admission → Prop
  | .waiting entry => Waiting options entry
  | .promoted reason connection => Promoted options reason connection

theorem promote_sound {entry : AdmissionEntry} {reason : PromotionReason}
    (hfull : reason = .prefixFull → entry.prefixBytes.length = options.maxPrefixBytes)
    (hmarked : reason = .markerFound → options.completionMarker <:+: entry.prefixBytes) :
    (promote entry reason).Sound options :=
  ⟨rfl,hfull,hmarked⟩

theorem inspectAdmission_sound {entry : AdmissionEntry} {now : ℤ} {outcome : ReceiveOutcome}
    (h : Waiting options entry)
    (hfits : (Admission.waiting entry).Fits options (.readable now outcome)) :
    (inspectAdmission options entry now outcome).Sound options := by
  cases outcome with
  | received bytes =>
    unfold inspectAdmission
    dsimp only
    split
    · exact promote_sound (by simp) (by simp)
    · rename_i hbytes
      have hgrown : (entry.grow bytes now).prefixBytes = entry.prefixBytes ++ bytes := by
        rw [AdmissionEntry.grow,if_neg hbytes]
      split
      · rename_i hfull
        exact promote_sound (fun _ => hfull) (by simp)
      · rename_i hroom
        have hcomplete := prefixComplete_iff hgrown h.unmarked
        split
        · rename_i hfound
          exact promote_sound (by simp) (fun _ => hcomplete.mp hfound)
        · rename_i hopen
          have hlength : (entry.grow bytes now).prefixBytes.length ≤ options.maxPrefixBytes := by
            rw [hgrown,List.length_append]
            exact hfits
          exact ⟨by omega,fun hmarked => hopen (hcomplete.mpr hmarked)⟩
  | interrupted => exact h
  | wouldBlock => exact h
  | failed => exact promote_sound (by simp) (by simp)

theorem step_sound {state : Admission} {event : AdmissionEvent} (h : state.Sound options)
    (hfits : state.Fits options event) : (state.step options event).Sound options := by
  cases state with
  | promoted reason connection => exact h
  | waiting entry =>
    cases event with
    | readable now outcome => exact inspectAdmission_sound h hfits
    | expiryCheck now =>
      unfold Admission.step promoteExpired
      dsimp only
      split
      · exact promote_sound (by simp) (by simp)
      · exact h
    | pollFailure => exact promote_sound (by simp) (by simp)

/-- Admission never waits on a full or complete prefix, and names its reasons truly. -/
theorem admitted_sound {connection : TcpConnection} {state : Admission}
    (hroom : 0 < options.maxPrefixBytes) (hmarker : options.completionMarker ≠ [])
    (h : Admitted options connection state) : state.Sound options := by
  induction h with
  | start =>
    refine ⟨hroom,?_⟩
    intro hinfix
    exact hmarker (List.infix_nil.mp hinfix)
  | step reached hfits ih => exact step_sound ih hfits

end SpareNode.Network
