import SpareNode.Network.ConnectionAdmission
import SpareNode.Network.ConnectionIo

/-! # Admission is invisible to the handler

Admission runs against a peer's stream that arrives in arbitrary pieces. Whatever it has consumed
by the time it promotes the connection is what the connection replays, so a handler reads the
peer's stream as if nobody had read from it before.
-/
namespace SpareNode.Network
open Concurrency

/-- The admission options that `create` accepts. -/
structure AdmissionPolicy where
  options : ConnectionAdmissionOptions
  marker : options.completionMarker ≠ []
  fits : options.completionMarker.length ≤ options.maxPrefixBytes
  inactivity : 0 < options.inactivityTimeout
  total : 0 < options.totalTimeout

def serverPolicy : AdmissionPolicy where
  options := serverAdmission
  marker := by decide
  fits := by decide
  inactivity := by decide
  total := by decide

/-- A connection in admission, over the part of the peer's stream that it has not consumed. -/
structure PeerAdmission where
  admission : Admission
  stream : Bytes

inductive PeerEvent where
  | readable (now : ℤ) (answer : NativeAnswer)
  | expiryCheck (now : ℤ)
  | pollFailure
deriving DecidableEq, Repr

/-- What `inspect_admission` asks the socket for, of a buffer of `maxPrefixBytes`. -/
def admissionRequest (options : ConnectionAdmissionOptions) (entry : AdmissionEntry) : ℕ :=
  min (options.maxPrefixBytes - entry.prefixBytes.length) options.maxPrefixBytes

/-- What `inspect_admission` learns from a native receive. -/
def NativeAnswer.outcome (requested : ℕ) (stream : Bytes) : NativeAnswer → ReceiveOutcome
  | .transfer size => .received ((NativeAnswer.transfer size).moved requested stream)
  | .interrupted => .interrupted
  | .wouldBlock _ => .wouldBlock
  | .failed _ => .failed

namespace PeerAdmission
variable (options : ConnectionAdmissionOptions)

def start (peer : TcpEndpoint) (now : ℤ) (input : Bytes) : PeerAdmission :=
  ⟨.waiting (.start (.accepted peer now)),input⟩

def step (s : PeerAdmission) : PeerEvent → PeerAdmission
  | .readable now answer =>
    match s.admission with
    | .waiting entry =>
      let requested := admissionRequest options entry
      ⟨s.admission.step options (.readable now (answer.outcome requested s.stream)),
        answer.left requested s.stream⟩
    | .promoted _ _ => s
  | .expiryCheck now => ⟨s.admission.step options (.expiryCheck now),s.stream⟩
  | .pollFailure => ⟨s.admission.step options .pollFailure,s.stream⟩

def run (s : PeerAdmission) (events : List PeerEvent) : PeerAdmission := events.foldl (step options) s

end PeerAdmission

/-- The calls of a handler that returned, by their results. -/
inductive Receives : LiveConnection → List (Except NetworkError Bytes) → LiveConnection → Prop where
  | nil (live : LiveConnection) : Receives live [] live
  | call {live next last : LiveConnection} {call : ReceiveCall} {result : Except NetworkError Bytes}
      {results : List (Except NetworkError Bytes)} (returned : live.receive call = some (next,result))
      (rest : Receives next results last) : Receives live (result :: results) last

namespace LiveConnection

/-- What a reader of the connection has still to get. -/
def remaining (live : LiveConnection) : Bytes := live.connection.unread ++ live.stream

variable {live first next last : LiveConnection} {call : ReceiveCall}
variable {result : Except NetworkError Bytes} {results : List (Except NetworkError Bytes)}

/-- A call with a buffer that is not interrupted is served from the admission bytes first. -/
theorem receive_prefetched (hcall : call.admitted = true) (hunread : live.connection.unread ≠ []) :
    ∃ connection', live.receive call =
        some (⟨connection',live.stream⟩,.ok (live.connection.unread.take call.capacity)) ∧
      connection'.unread = live.connection.unread.drop call.capacity := by
  simp only [ReceiveCall.admitted,Bool.and_eq_true,decide_eq_true_eq] at hcall
  have hinside : ¬live.connection.prefetched.length ≤ live.connection.prefetchedOffset :=
    fun hend => hunread (List.drop_eq_nil_of_le hend)
  obtain ⟨connection',hreceive,hleft,-⟩ := TcpConnection.receive_unread (.ok [])
    (Nat.pos_iff_ne_zero.mp hcall.1) hunread hcall.2
  refine ⟨connection',?_,hleft⟩
  rw [receive,if_neg (by simp [hinside]),hreceive]

/-- With no admission byte left the call is the socket's. -/
theorem receive_drained (hcall : call.admitted = true) (hunread : live.connection.unread = []) :
    live.receive call = (performIo call.capacity live.stream call.attempts).map
      fun io => (⟨live.connection,io.2⟩,io.1) := by
  have hopen : 0 < call.capacity ∧ interruptionStatus call.moment call.deadline = .none := by
    simpa [ReceiveCall.admitted] using hcall
  have hend : live.connection.prefetched.length ≤ live.connection.prefetchedOffset :=
    List.drop_eq_nil_iff.mp hunread
  rw [receive,if_pos (by simp [hcall,hend])]
  congr 1
  funext io
  unfold TcpConnection.receiveWithOptions
  rw [if_neg (Nat.pos_iff_ne_zero.mp hopen.1),hopen.2]
  dsimp only
  rw [if_neg (Nat.not_lt.mpr hend)]

/-- An interrupted call, or one without a buffer, fails and leaves everything as it was. -/
theorem receive_refused (hcall : call.admitted = false) :
    ∃ e, live.receive call = some (live,.error e) := by
  rw [receive,if_neg (by simp [hcall])]
  unfold TcpConnection.receiveWithOptions
  split
  · exact ⟨_,rfl⟩
  · rename_i hcapacity
    have hstatus : interruptionStatus call.moment call.deadline ≠ .none := by
      intro hnone
      simp [ReceiveCall.admitted,hnone,Nat.pos_iff_ne_zero.mpr hcapacity] at hcall
    cases hcase : interruptionStatus call.moment call.deadline with
    | none => exact absurd hcase hstatus
    | cancelled => exact ⟨_,rfl⟩
    | deadlineExceeded => exact ⟨_,rfl⟩

/-- What a call that returned did: nothing, or it handed out a piece of what comes next. -/
inductive Received (live : LiveConnection) : Except NetworkError Bytes → LiveConnection → Prop where
  | failed (e : NetworkError) : Received live (.error e) live
  | replayed {next : LiveConnection} {piece : Bytes} (room : piece ≠ [])
      (same : next.stream = live.stream)
      (split : piece ++ next.connection.unread = live.connection.unread) :
      Received live (.ok piece) next
  | transferred {next : LiveConnection} {piece : Bytes} (drained : live.connection.unread = [])
      (same : next.connection = live.connection) (split : piece ++ next.stream = live.stream)
      (ended : piece = [] → live.stream = []) : Received live (.ok piece) next

theorem receive_cases (h : live.receive call = some (next,result)) : Received live result next := by
  by_cases hcall : call.admitted = true
  · have hcapacity : 0 < call.capacity := by
      have hopen := hcall
      simp only [ReceiveCall.admitted,Bool.and_eq_true,decide_eq_true_eq] at hopen
      exact hopen.1
    by_cases hunread : live.connection.unread = []
    · rw [receive_drained hcall hunread,Option.map_eq_some_iff] at h
      obtain ⟨⟨answer,left⟩,hio,heq⟩ := h
      have hpair : (⟨live.connection,left⟩ : LiveConnection) = next ∧ answer = result := Prod.mk.inj heq
      obtain ⟨rfl,rfl⟩ := hpair
      rcases performIo_some hio with ⟨size,rfl,rfl⟩ | ⟨e,rfl,rfl⟩
      · exact .transferred hunread rfl (NativeAnswer.moved_append_left _)
          (NativeAnswer.moved_nil hcapacity)
      · exact .failed e
    · obtain ⟨connection',hreceive,hleft⟩ := receive_prefetched hcall hunread
      have hpair : (⟨connection',live.stream⟩ : LiveConnection) = next ∧
          Except.ok (live.connection.unread.take call.capacity) = result :=
        Prod.mk.inj (Option.some.inj (hreceive.symm.trans h))
      obtain ⟨rfl,rfl⟩ := hpair
      refine .replayed ?_ rfl ?_
      · intro hnil
        rcases List.take_eq_nil_iff.mp hnil with hzero | hend
        · omega
        · exact hunread hend
      · rw [hleft]
        exact List.take_append_drop _ _
  · obtain ⟨e,hreceive⟩ : ∃ e, live.receive call = some (live,.error e) :=
      receive_refused (Bool.eq_false_iff.mpr hcall)
    have hpair : live = next ∧ Except.error e = result :=
      Prod.mk.inj (Option.some.inj (hreceive.symm.trans h))
    obtain ⟨rfl,rfl⟩ := hpair
    exact .failed e

theorem Received.conserves (h : Received live result next) :
    handed result ++ next.remaining = live.remaining := by
  cases h with
  | failed e => rfl
  | replayed room same split => rw [handed_ok,remaining,same,← List.append_assoc,split,remaining]
  | transferred drained same split ended =>
    rw [handed_ok,remaining,same,drained,List.nil_append,split,remaining,drained,List.nil_append]

/-- An empty success is the end of the stream, with every admission byte handed out. -/
theorem Received.ends (h : Received live (.ok []) next) : live.remaining = [] := by
  cases h with
  | replayed room same split => exact absurd rfl room
  | transferred drained same split ended => rw [remaining,drained,ended rfl,List.nil_append]

/-- What the results of a handler's calls are, in terms of the connection it was given. -/
structure Replayed (first : LiveConnection) (results : List (Except NetworkError Bytes))
    (last : LiveConnection) : Prop where
  conserved : (results.map handed).flatten ++ last.remaining = first.remaining
  order : ∃ taken, taken ++ last.stream = first.stream ∧
    (results.map handed).flatten ++ last.connection.unread = first.connection.unread ++ taken ∧
    (last.connection.unread ≠ [] → taken = [])
  ended : .ok [] ∈ results → (results.map handed).flatten = first.remaining

theorem Replayed.nil (live : LiveConnection) : Replayed live [] live :=
  ⟨rfl,⟨[],rfl,(List.append_nil _).symm,fun _ => rfl⟩,fun h => absurd h List.not_mem_nil⟩

/-- The socket is first asked in a call that finds the admission bytes all handed out. -/
theorem Received.order (h : Received live result next) {taken : Bytes} {pieces : Bytes}
    (hstream : taken ++ last.stream = next.stream)
    (hpieces : pieces ++ last.connection.unread = next.connection.unread ++ taken)
    (hlate : last.connection.unread ≠ [] → taken = []) :
    ∃ taken', taken' ++ last.stream = live.stream ∧
      handed result ++ pieces ++ last.connection.unread = live.connection.unread ++ taken' ∧
      (last.connection.unread ≠ [] → taken' = []) := by
  cases h with
  | failed e => exact ⟨taken,hstream,hpieces,hlate⟩
  | replayed room same split =>
    refine ⟨taken,hstream.trans same,?_,hlate⟩
    rw [handed_ok,List.append_assoc,hpieces,← List.append_assoc,split]
  | @transferred _ piece drained same split ended =>
    rw [same,drained,List.nil_append] at hpieces
    refine ⟨piece ++ taken,?_,?_,?_⟩
    · rw [List.append_assoc,hstream,split]
    · rw [handed_ok,List.append_assoc,hpieces,drained,List.nil_append]
    · intro hmore
      rw [hlate hmore] at hpieces
      exact absurd (List.append_eq_nil_iff.mp hpieces).2 hmore

theorem Replayed.cons (h : Received live result next) (hrest : Replayed next results last) :
    Replayed live (result :: results) last := by
  obtain ⟨hconserved,⟨taken,hstream,hpieces,hlate⟩,hended⟩ := hrest
  have hall : ((result :: results).map handed).flatten ++ last.remaining = live.remaining := by
    rw [List.map_cons,List.flatten_cons,List.append_assoc,hconserved,h.conserves]
  refine ⟨hall,h.order hstream hpieces hlate,?_⟩
  intro hmem
  rcases List.mem_cons.mp hmem with hhead | htail
  · subst hhead
    rw [h.ends] at hall ⊢
    exact (List.append_eq_nil_iff.mp hall).1
  · rw [List.map_cons,List.flatten_cons,hended htail,h.conserves]

/-- Every sequence of calls reads the admission bytes, then the socket's stream. -/
theorem receives_replayed (h : Receives first results last) : Replayed first results last := by
  induction h with
  | nil live => exact .nil live
  | call returned rest ih => exact ih.cons (receive_cases returned)

end LiveConnection

/-- The bytes that admission has taken from the socket. -/
def Admission.consumed : Admission → Bytes
  | .waiting entry => entry.prefixBytes
  | .promoted _ connection => connection.prefetched

def ReceiveOutcome.bytes : ReceiveOutcome → Bytes
  | .received bytes => bytes
  | _ => []

variable {options : ConnectionAdmissionOptions} {entry : AdmissionEntry}

theorem grow_prefixBytes (bytes : Bytes) (now : ℤ) :
    (entry.grow bytes now).prefixBytes = entry.prefixBytes ++ bytes := by
  unfold AdmissionEntry.grow
  split
  · rename_i hempty
    rw [List.isEmpty_iff.mp hempty,List.append_nil]
  · rfl

theorem inspectAdmission_consumed (now : ℤ) (outcome : ReceiveOutcome) :
    (inspectAdmission options entry now outcome).consumed = entry.prefixBytes ++ outcome.bytes := by
  cases outcome with
  | received bytes =>
    have hgrown : (entry.grow bytes now).prefixBytes = entry.prefixBytes ++ bytes :=
      grow_prefixBytes bytes now
    unfold inspectAdmission
    dsimp only
    split
    · exact hgrown
    · split
      · exact hgrown
      · split
        · exact hgrown
        · exact hgrown
  | interrupted => exact (List.append_nil _).symm
  | wouldBlock => exact (List.append_nil _).symm
  | failed => exact (List.append_nil _).symm

theorem promoteExpired_consumed (now : ℤ) :
    (promoteExpired options entry now).consumed = entry.prefixBytes := by
  unfold promoteExpired
  split
  · rfl
  · rfl

theorem outcome_bytes (answer : NativeAnswer) (requested : ℕ) (stream : Bytes) :
    (answer.outcome requested stream).bytes = answer.moved requested stream := by
  cases answer with
  | transfer size => rfl
  | interrupted => rfl
  | wouldBlock code => rfl
  | failed code => rfl

theorem admissionRequest_room (h : entry.prefixBytes.length < options.maxPrefixBytes) :
    0 < admissionRequest options entry ∧
      entry.prefixBytes.length + admissionRequest options entry ≤ options.maxPrefixBytes := by
  unfold admissionRequest
  omega

/-- What holds of a connection and its peer's stream throughout admission. -/
structure PeerAdmission.Consistent (options : ConnectionAdmissionOptions) (input : Bytes)
    (s : PeerAdmission) : Prop where
  sound : s.admission.Sound options
  whole : s.admission.consumed ++ s.stream = input
  bounded : s.admission.consumed.length ≤ options.maxPrefixBytes

theorem outcome_fits (answer : NativeAnswer) (stream : Bytes) (now : ℤ)
    (h : entry.prefixBytes.length < options.maxPrefixBytes) :
    (Admission.waiting entry).Fits options
      (.readable now (answer.outcome (admissionRequest options entry) stream)) := by
  have hroom := (admissionRequest_room h).2
  cases answer with
  | transfer size =>
    have hmoved : ((NativeAnswer.transfer size).moved (admissionRequest options entry) stream).length ≤
        admissionRequest options entry := NativeAnswer.moved_length _
    exact le_trans (Nat.add_le_add_left hmoved _) hroom
  | interrupted => trivial
  | wouldBlock code => trivial
  | failed code => trivial

namespace PeerAdmission
variable {s : PeerAdmission} {input : Bytes}

theorem step_consistent (event : PeerEvent) (h : s.Consistent options input) :
    (s.step options event).Consistent options input := by
  obtain ⟨admission,stream⟩ := s
  obtain ⟨hsound,hwhole,hbounded⟩ := h
  cases admission with
  | promoted reason connection =>
    cases event with
    | readable now answer => exact ⟨hsound,hwhole,hbounded⟩
    | expiryCheck now => exact ⟨hsound,hwhole,hbounded⟩
    | pollFailure => exact ⟨hsound,hwhole,hbounded⟩
  | waiting entry =>
    cases event with
    | readable now answer =>
      have hroom : entry.prefixBytes.length < options.maxPrefixBytes := Waiting.room hsound
      have hfits := outcome_fits answer stream now hroom
      have hconsumed : (inspectAdmission options entry now
          (answer.outcome (admissionRequest options entry) stream)).consumed =
          entry.prefixBytes ++ answer.moved (admissionRequest options entry) stream := by
        rw [inspectAdmission_consumed,outcome_bytes]
      refine ⟨step_sound hsound hfits,?_,?_⟩
      · change (inspectAdmission options entry now _).consumed ++ answer.left _ stream = input
        rw [hconsumed,List.append_assoc,NativeAnswer.moved_append_left]
        exact hwhole
      · change (inspectAdmission options entry now _).consumed.length ≤ _
        rw [hconsumed,List.length_append]
        exact le_trans (Nat.add_le_add_left (NativeAnswer.moved_length answer) _)
          (admissionRequest_room hroom).2
    | expiryCheck now =>
      have hconsumed : (promoteExpired options entry now).consumed = entry.prefixBytes :=
        promoteExpired_consumed now
      have hfits : (Admission.waiting entry).Fits options (.expiryCheck now) := trivial
      refine ⟨step_sound hsound hfits,?_,?_⟩
      · exact (congrArg (· ++ stream) hconsumed).trans hwhole
      · exact (congrArg List.length hconsumed).le.trans hbounded
    | pollFailure =>
      have hfits : (Admission.waiting entry).Fits options .pollFailure := trivial
      exact ⟨step_sound hsound hfits,hwhole,hbounded⟩

theorem peer_run (policy : AdmissionPolicy) (peer : TcpEndpoint) (now : ℤ) (input : Bytes)
    (events : List PeerEvent) :
    ((start peer now input).run policy.options events).Consistent policy.options input := by
  have hstart : (start peer now input).Consistent policy.options input := by
    have hlength := List.length_pos_iff.mpr policy.marker
    have hfits := policy.fits
    refine ⟨⟨?_,fun hinfix => policy.marker (List.infix_nil.mp hinfix)⟩,rfl,Nat.zero_le _⟩
    change 0 < policy.options.maxPrefixBytes
    omega
  unfold run
  induction events using List.reverseRecOn with
  | nil => exact hstart
  | append_singleton events event ih =>
    rw [List.foldl_append]
    exact step_consistent event ih

end PeerAdmission

/-- What makes admission end with a receive: the marker, a full prefix, or the stream's end or
failure. -/
def Decides (options : ConnectionAdmissionOptions) (entry : AdmissionEntry) (stream : Bytes) :
    NativeAnswer → Prop
  | .transfer size =>
    let now := entry.prefixBytes ++
      (NativeAnswer.transfer size).moved (admissionRequest options entry) stream
    options.completionMarker <:+: now ∨ now.length = options.maxPrefixBytes ∨ stream = []
  | .interrupted => False
  | .wouldBlock _ => False
  | .failed _ => True

def Admission.isPromoted : Admission → Bool
  | .waiting _ => false
  | .promoted _ _ => true

/-- A waiting connection: nothing has decided it, and its next receive is decided exactly. -/
structure WaitsExactly (options : ConnectionAdmissionOptions) (entry : AdmissionEntry)
    (stream : Bytes) : Prop where
  undecided : Waiting options entry
  asks : 0 < admissionRequest options entry ∧
    entry.prefixBytes.length + admissionRequest options entry ≤ options.maxPrefixBytes
  search : ∀ now (answer : NativeAnswer),
    let grown := entry.grow (answer.moved (admissionRequest options entry) stream) now
    prefixComplete options grown entry.prefixBytes.length = true ↔
      options.completionMarker <:+: grown.prefixBytes
  promotes : ∀ now answer,
    ((PeerAdmission.mk (.waiting entry) stream).step options (.readable now answer)).admission.isPromoted =
      true ↔ Decides options entry stream answer

theorem isPromoted_promote (reason : PromotionReason) : (promote entry reason).isPromoted = true := rfl

theorem waiting_exact (h : Waiting options entry) (stream : Bytes) :
    WaitsExactly options entry stream := by
  have hasks := admissionRequest_room h.room
  have hsearch (now : ℤ) (bytes : Bytes) :
      prefixComplete options (entry.grow bytes now) entry.prefixBytes.length = true ↔
        options.completionMarker <:+: (entry.grow bytes now).prefixBytes :=
    prefixComplete_iff (grow_prefixBytes bytes now) h.unmarked
  refine ⟨h,hasks,fun now answer => hsearch now _,?_⟩
  intro now answer
  cases answer with
  | interrupted => exact iff_of_false Bool.false_ne_true id
  | wouldBlock code => exact iff_of_false Bool.false_ne_true id
  | failed code => exact iff_of_true (isPromoted_promote _) trivial
  | transfer size =>
    let bytes := (NativeAnswer.transfer size).moved (admissionRequest options entry) stream
    have hbytes : bytes = [] ↔ stream = [] := by
      constructor
      · exact NativeAnswer.moved_nil hasks.1
      · intro hend
        exact (congrArg (List.take _) hend).trans List.take_nil
    have hgrown : (entry.grow bytes now).prefixBytes = entry.prefixBytes ++ bytes :=
      grow_prefixBytes bytes now
    change (inspectAdmission options entry now (.received bytes)).isPromoted = true ↔
      options.completionMarker <:+: entry.prefixBytes ++ bytes ∨
        (entry.prefixBytes ++ bytes).length = options.maxPrefixBytes ∨ stream = []
    rw [← hbytes,← hgrown,← hsearch]
    unfold inspectAdmission
    dsimp only
    split
    · rename_i hempty
      exact iff_of_true (isPromoted_promote _) (.inr (.inr (List.isEmpty_iff.mp hempty)))
    · rename_i hsome
      split
      · rename_i hfull
        exact iff_of_true (isPromoted_promote _) (.inr (.inl hfull))
      · rename_i hroom
        split
        · rename_i hfound
          exact iff_of_true (isPromoted_promote _) (.inl hfound)
        · rename_i hopen
          apply iff_of_false (by simp [Admission.isPromoted])
          rintro (hfound | hfull | hnil)
          · exact hopen hfound
          · exact hroom hfull
          · exact hsome (List.isEmpty_iff.mpr hnil)

/-- A handler's view of a connection: its calls read `input`, whatever their buffers, their
interruptions and the kernel's pieces. -/
structure ReadsExactly (input : Bytes) (first : LiveConnection) : Prop where
  whole : first.remaining = input
  replayed : ∀ results last, Receives first results last → LiveConnection.Replayed first results last
  interrupted : ∀ results last call, Receives first results last → call.admitted = false →
    ∃ e, last.receive call = some (last,.error e)
  served : ∀ results last call, Receives first results last → call.admitted = true →
    last.connection.unread ≠ [] → ∃ connection', last.receive call =
        some (⟨connection',last.stream⟩,.ok (last.connection.unread.take call.capacity))
  handedOver : ∀ results last call, Receives first results last → call.admitted = true →
    last.connection.unread = [] → last.receive call =
      (performIo call.capacity last.stream call.attempts).map fun io => (⟨last.connection,io.2⟩,io.1)

theorem reads_exactly {input : Bytes} {first : LiveConnection} (h : first.remaining = input) :
    ReadsExactly input first where
  whole := h
  replayed _ _ hreceives := LiveConnection.receives_replayed hreceives
  interrupted _ _ _ _ hcall := LiveConnection.receive_refused hcall
  served _ _ _ _ hcall hunread := by
    obtain ⟨connection',hreceive,-⟩ := LiveConnection.receive_prefetched hcall hunread
    exact ⟨connection',hreceive⟩
  handedOver _ _ _ _ hcall hunread := LiveConnection.receive_drained hcall hunread

/-- Admission over any stream in any pieces: it never takes more than its bound, it promotes at
the first receive that decides, and the handler then reads the stream from its beginning. -/
theorem admission_transparent (policy : AdmissionPolicy) (peer : TcpEndpoint) (accepted : ℤ)
    (input : Bytes) (events : List PeerEvent) :
    let s := (PeerAdmission.start peer accepted input).run policy.options events
    s.admission.consumed ++ s.stream = input ∧
    s.admission.consumed.length ≤ policy.options.maxPrefixBytes ∧
    (∀ entry, s.admission = .waiting entry → WaitsExactly policy.options entry s.stream) ∧
    (∀ reason connection, s.admission = .promoted reason connection →
      ReadsExactly input ⟨connection,s.stream⟩) := by
  have hrun := PeerAdmission.peer_run policy peer accepted input events
  refine ⟨hrun.whole,hrun.bounded,?_,?_⟩
  · intro entry hwaiting
    have hsound := hrun.sound
    rw [hwaiting] at hsound
    exact waiting_exact hsound _
  · intro reason connection hpromoted
    have hsound := hrun.sound
    have hwhole := hrun.whole
    rw [hpromoted] at hsound hwhole
    apply reads_exactly
    have hoffset : connection.prefetchedOffset = 0 := Promoted.offset hsound
    have hunread : connection.unread = connection.prefetched := by
      rw [TcpConnection.unread,hoffset,List.drop_zero]
    rw [LiveConnection.remaining,hunread]
    exact hwhole

/-- A marker that is cut in two by the pieces: the receive that completes it promotes the connection, and the
handler reads the request from its beginning, with what the peer has sent behind it. -/
theorem admission_transparent_request : ∃ connection,
    ((PeerAdmission.start ⟨[],80⟩ 0 [97,13,10,13,10,98]).run serverPolicy.options
      [.readable 1 (.transfer 2),.readable 2 .interrupted,.readable 3 (.transfer 1)]).admission =
        .promoted .markerFound connection ∧
    ReadsExactly [97,13,10,13,10,98] ⟨connection,[98]⟩ := by
  refine ⟨_,rfl,?_⟩
  exact (admission_transparent serverPolicy ⟨[],80⟩ 0 [97,13,10,13,10,98]
    [.readable 1 (.transfer 2),.readable 2 .interrupted,.readable 3 (.transfer 1)]).2.2.2 _ _ rfl

end SpareNode.Network
