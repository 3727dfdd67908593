import SpareNode.Http.Transport.HandlerRuns
import SpareNode.Http.Transport.HttpConnectionAdmission

/-! # Waiting for a worker

Admission buffers a request, a queue holds the connection, and a worker replays the buffer. The
worker's first read already has the deadline that the last receive of admission and the accept
time set, so a request that is complete in the buffer is lost when the queue holds it for longer.
Otherwise the worker reads the whole buffer and dispatches.
-/
namespace SpareNode.Http
open Concurrency Network Storage

/-- The pieces in which a buffer of some capacity takes bytes. -/
def pieces (capacity : ℕ) (bytes : Bytes) : List Bytes :=
  if _hend : capacity = 0 ∨ bytes = [] then []
  else bytes.take capacity :: pieces capacity (bytes.drop capacity)
termination_by bytes.length
decreasing_by
  have := List.length_pos_iff.mpr (not_or.mp _hend).2
  simp only [List.length_drop]
  omega

theorem receive_expired {connection : TcpConnection} {capacity : ℕ} {moment : Moment} {deadline : Option ℤ}
    (socket : Except NetworkError Bytes) (hcapacity : capacity ≠ 0)
    (hexpired : interruptionStatus moment deadline = .deadlineExceeded) :
    connection.receiveWithOptions capacity moment deadline socket =
      (connection,.error ⟨.receive,.timeout,0⟩) := by
  rw [TcpConnection.receiveWithOptions,if_neg hcapacity,hexpired]

/-- A send that the socket always takes something of goes out. -/
theorem sendAll_ok {socket : Socket} (h : ∀ n, ∃ k, socket n = .ok (k + 1)) (wire : Wire) (bytes : Bytes) :
    (sendAll socket wire bytes).2 = .ok () := by
  fun_induction sendAll socket wire bytes with
  | case1 => rfl
  | case2 wire b rest e he =>
    obtain ⟨k,hk⟩ := h wire.sends
    rw [hk] at he
    cases he
  | case3 wire b rest he =>
    obtain ⟨k,hk⟩ := h wire.sends
    rw [hk] at he
    cases he
  | case4 wire b rest n hn ih => exact ih

/-- A read is never given less than a full inactivity budget within the total one. -/
theorem RequestDeadlines.le_next (deadlines : RequestDeadlines) (readingBody : Bool) :
    min (deadlines.lastProgress + milliseconds (min deadlines.timeouts.headers deadlines.timeouts.body))
      deadlines.total ≤ deadlines.next readingBody := by
  unfold RequestDeadlines.next
  split
  · rename_i inactivity hinactivity
    obtain ⟨-,-,rfl,-⟩ := checkedDeadline_eq hinactivity
    unfold milliseconds
    split <;> omega
  · exact min_le_right _ _

/-- The deadline of the worker's first read: what the accept time and the last receive of
admission leave of the header and the total budget. -/
def receiveDeadline (timeouts : HttpRequestTimeouts) (connection : TcpConnection) : ℤ :=
  min (max connection.acceptedAt connection.lastReceiveProgress + milliseconds timeouts.headers)
    (connection.acceptedAt + milliseconds timeouts.total)

theorem next_start {timeouts : HttpRequestTimeouts} {connection : TcpConnection} {deadlines : RequestDeadlines}
    (h : RequestDeadlines.create timeouts connection.acceptedAt = some deadlines) :
    (deadlines.recordProgress connection.lastReceiveProgress).next false =
      receiveDeadline timeouts connection := by
  obtain ⟨hstarted,hheaders,hmax,rfl⟩ := create_deadlines h
  unfold RequestDeadlines.next RequestDeadlines.recordProgress receiveDeadline
  dsimp only
  rw [if_neg (by decide)]
  split
  · rename_i inactivity hinactivity
    obtain ⟨-,-,rfl,-⟩ := checkedDeadline_eq hinactivity
    rfl
  · rename_i hinactivity
    have hlate := checkedDeadline_none hinactivity (by omega) hheaders
    omega

def Effect.timedOut : Effect → Bool
  | .receiveFailed e => e.domain = .timeout
  | .requestFailed e => e.timedOut
  | _ => false

def ReportsReceiveTimeout (run : ConnectionRun) : Prop := ∃ effect ∈ run.log, effect.timedOut = true

/-- The handler has ended, and has called the application with the request unless an expectation
or the transport stood against it. -/
structure Proceeds (config : HttpConnectionHandlerConfig) (peer : TcpEndpoint) (view : HttpRequestView)
    (outcome : ConnectionRun × Option (Except NetworkError Unit)) : Prop where
  ended : outcome.2.isSome = true
  dispatched : Supported view.fields → ∀ transport,
    resolveHttpTransport config.transportPolicy peer view.fields = .ok transport →
      ∃ request, Effect.called request view transport ∈ outcome.1.log

/-- The bytes that admission has left, read buffer by buffer, are a complete request. -/
def HoldsRequest (config : HttpConnectionHandlerConfig) (connection : TcpConnection)
    (view : HttpRequestView) : Prop :=
  BufferedRequest.ingest .reliable
    { limits := config.parserLimits, storagePolicySelector := config.bodyStoragePolicySelector }
    (pieces (receiveCapacity config) connection.unread) = .ok (some view)

/-- A configuration that the handler accepts for a connection, without deadlines of the
embedder's own. -/
structure Handles (config : HttpConnectionHandlerConfig) (connection : TcpConnection) : Prop where
  deadlines : (RequestDeadlines.create config.timeouts connection.acceptedAt).isSome = true
  bounds : ¬(maximumMetadataBytes config.parserLimits = 0 ∨ config.receiveChunkBytes = 0 ∨
    config.responseTimeout ≤ 0 ∨ maximumConfigTimeout < config.responseTimeout ∨
    config.maxDrainBytes = 0 ∨ config.drainTimeout ≤ 0 ∨ maximumConfigTimeout < config.drainTimeout)
  peer : httpTransportAllowsPeer config.transportPolicy connection.peerEndpoint = true
  provider : config.deadlineProvider = none

/-- The time up to which a worker that starts at some moment has used up no budget of its own. -/
def workLimit (timeouts : HttpRequestTimeouts) (connection : TcpConnection) (start : ℤ) : ℤ :=
  min (start + milliseconds (min timeouts.headers timeouts.body))
    (connection.acceptedAt + milliseconds timeouts.total)

/-- Nothing but the queue stands in the way of a connection: the server is not stopped, the
socket takes what is sent, storage works, and a worker that starts in time goes through the
buffer without using up a budget itself. Each byte takes two looks at the clock at most. -/
structure Undisturbed (world : ConnectionWorld) (config : HttpConnectionHandlerConfig)
    (connection : TcpConnection) : Prop where
  create : ∀ n, world.storage.create n = .ok ()
  write : ∀ n, world.storage.write n = .ok ()
  complete : ∀ n, world.storage.complete n = .ok ()
  share : ∀ n, world.storage.shareArtifact n = true
  allocate : ∀ n, world.storage.allocate n = true
  sends : ∀ n, ∃ k, world.send n = .ok (k + 1)
  running : ∀ n, (world.moment n).stopRequested = false
  storing : ∀ n, (world.storageMoment n).stopRequested = false
  prompt : (world.moment 0).now < receiveDeadline config.timeouts connection →
    (∀ n < 2 * connection.unread.length, (world.moment 0).now ≤ (world.moment n).now ∧
      (world.moment n).now < workLimit config.timeouts connection (world.moment 0).now) ∧
    ∀ n, (world.storageMoment n).now < workLimit config.timeouts connection (world.moment 0).now

variable {world : ConnectionWorld} {config : HttpConnectionHandlerConfig}
  {application : HttpApplication} {run run' : ConnectionRun} {view : HttpRequestView}

theorem receiveCapacity_ne_zero {connection : TcpConnection} (h : Handles config connection) :
    receiveCapacity config ≠ 0 := by
  have := h.bounds
  unfold receiveCapacity
  omega

theorem Answered.log_cases {before after : ConnectionRun} (h : Answered before after) :
    after.log = before.log ∨ ∃ response requestMethod, after.log = before.log ++ [.final response requestMethod] := by
  cases h with
  | silent quiet => exact Or.inl quiet.log
  | responded response requestMethod part final beginning log sent => exact Or.inr ⟨_,_,log⟩

theorem Answered.calm {before after : ConnectionRun} (h : Answered before after)
    (hcalm : ¬ReportsReceiveTimeout before) : ¬ReportsReceiveTimeout after := by
  rintro ⟨effect,heffect,htimed⟩
  rcases h.log_cases with hlog | ⟨response,requestMethod,hlog⟩
  · rw [hlog] at heffect
    exact hcalm ⟨effect,heffect,htimed⟩
  · rw [hlog,List.mem_append,List.mem_singleton] at heffect
    rcases heffect with hold | rfl
    · exact hcalm ⟨effect,hold,htimed⟩
    · cases htimed

theorem Answered.mem {before after : ConnectionRun} (h : Answered before after) {effect : Effect}
    (heffect : effect ∈ before.log) : effect ∈ after.log := by
  rcases h.log_cases with hlog | ⟨response,requestMethod,hlog⟩
  · rwa [hlog]
  · rw [hlog]
    exact List.mem_append_left _ heffect

theorem record_calm {effect : Effect} (h : ¬ReportsReceiveTimeout run) (heffect : effect.timedOut = false) :
    ¬ReportsReceiveTimeout (run.record effect) := by
  rintro ⟨effect',hmem,htimed⟩
  rcases List.mem_append.mp hmem with hold | hnew
  · exact h ⟨effect',hold,htimed⟩
  · rw [List.mem_singleton.mp hnew,heffect] at htimed
    cases htimed

theorem dispatchAndRespond_calm (world : ConnectionWorld) (config : HttpConnectionHandlerConfig)
    (application : HttpApplication) (transport : HttpRequestTransportContext)
    (h : ¬ReportsReceiveTimeout run) :
    ¬ReportsReceiveTimeout (dispatchAndRespond world config application run view transport).1 ∧
      .called run.request view transport ∈ (dispatchAndRespond world config application run view transport).1.log := by
  have hcalm : ¬ReportsReceiveTimeout (run.record (.called run.request view transport)) := record_calm h rfl
  have hcalled : .called run.request view transport ∈ (run.record (.called run.request view transport)).log :=
    List.mem_append_right _ (List.mem_singleton.mpr rfl)
  have hfailed := sendErrorResponse_answered world config
    (run.record (.called run.request view transport)) .internalServerError (by decide)
  unfold dispatchAndRespond
  dsimp only
  split
  · exact ⟨hcalm,hcalled⟩
  · exact ⟨hfailed.calm hcalm,hfailed.mem hcalled⟩
  · rename_i response hresponse
    split
    · exact ⟨hfailed.calm hcalm,hfailed.mem hcalled⟩
    · rename_i hstatus
      have hanswered := sendFinalResponse_answered world config
        (run.record (.called run.request view transport)) response view.method (by omega)
      exact ⟨hanswered.calm hcalm,hanswered.mem hcalled⟩

/-- A complete request is dispatched, unless the transport stands against it. -/
theorem answerRequest_proceeds (world : ConnectionWorld) (config : HttpConnectionHandlerConfig)
    (application : HttpApplication) (h : ¬ReportsReceiveTimeout run) :
    ¬ReportsReceiveTimeout (answerRequest world config application run view).1 ∧
      Proceeds config run.connection.peerEndpoint view
        ((answerRequest world config application run view).1,some (answerRequest world config application run view).2) := by
  unfold answerRequest
  split
  · rename_i code hcode
    have hanswered := sendErrorResponse_answered world config (run.record (.transportRejected code))
      (transportErrorStatus code) (transportErrorStatus_final code)
    refine ⟨hanswered.calm (record_calm h rfl),rfl,?_⟩
    intro _ transport htransport
    rw [hcode] at htransport
    cases htransport
  · rename_i transport htransport
    obtain ⟨hcalm,hcalled⟩ := @dispatchAndRespond_calm run view world config application transport h
    refine ⟨hcalm,rfl,?_⟩
    intro _ transport' htransport'
    cases htransport.symm.trans htransport'
    exact ⟨run.request,hcalled⟩

theorem request_complete {request : BufferedRequest} (h : request.request = some view) :
    request.complete = true := by
  unfold BufferedRequest.request at h
  unfold BufferedRequest.complete
  split at h
  · rename_i head g hhead hg
    rw [hg]
    split at h
    · assumption
    · cases h
  · cases h

/-- The fields of the request are those of its head, whatever arrives later. -/
theorem ingest_fields {env : StorageEnvironment} {request : BufferedRequest} {head : HttpRequestHead}
    {fragments : List Bytes} (hhead : request.head = some head)
    (h : request.ingest env fragments = .ok (some view)) : view.fields = head.fields := by
  induction fragments generalizing request with
  | nil => exact request_fields hhead (Except.ok.inj h)
  | cons f fragments ih =>
    rw [BufferedRequest.ingest] at h
    split at h
    · exact request_fields hhead (Except.ok.inj h)
    · split at h
      · cases h
      · rename_i request' hfeed
        have hkept := @feed_head env request f head hhead
        rw [hfeed] at hkept
        exact ih hkept h

/-- The invariant while a worker goes through what admission has left. -/
structure Reading (world : ConnectionWorld) (config : HttpConnectionHandlerConfig)
    (connection : TcpConnection) (view : HttpRequestView) (run : ConnectionRun) : Prop where
  holds : run.request.ingest .reliable (pieces (receiveCapacity config) run.connection.unread) =
    .ok (some view)
  calm : ¬ReportsReceiveTimeout run
  peer : run.connection.peerEndpoint = connection.peerEndpoint
  timeouts : run.deadlines.timeouts = config.timeouts
  total : run.deadlines.total = connection.acceptedAt + milliseconds config.timeouts.total
  looks : run.looks + 2 * run.connection.unread.length ≤ 2 * connection.unread.length
  inTime : run.connection.unread ≠ [] →
    (world.moment run.looks).now < run.deadlines.next (readPhase run = .body)

variable {connection : TcpConnection}

theorem boundedReadDeadline_eq (h : Handles config connection) (run : ConnectionRun)
    (phase : HttpRequestReadPhase) : boundedReadDeadline config run phase = run.deadlines.next (phase = .body) := by
  simp [boundedReadDeadline,h.provider]

theorem storageUnder_reliable (hworld : Undisturbed world config connection) {deadline : ℤ}
    (hdeadline : ∀ n, (world.storageMoment n).now < deadline) :
    storageUnder world deadline = .reliable := by
  have hinterruption : ∀ n, interruptionStatus (world.storageMoment n) (some deadline) = .none := by
    intro n
    simp [interruptionStatus,hworld.storing n,Int.not_le.mpr (hdeadline n)]
  simp [storageUnder,StorageEnvironment.reliable,funext hinterruption,funext hworld.create,
    funext hworld.write,funext hworld.complete,funext hworld.share,funext hworld.allocate]

/-- The request that a feed of the next piece makes. -/
theorem ingest_step {request : BufferedRequest} {f : Bytes} {fragments : List Bytes}
    (h : request.ingest .reliable (f :: fragments) = .ok (some view)) (hnone : request.request = none) :
    ∃ request', request.feed .reliable f = (request',.ok ()) ∧
      request'.ingest .reliable fragments = .ok (some view) := by
  rw [BufferedRequest.ingest] at h
  split at h
  · rw [hnone] at h
    cases h
  · split at h
    · cases h
    · rename_i request' hfeed
      exact ⟨request',hfeed,h⟩

theorem receiveMore_reading (hhandles : Handles config connection) (hworld : Undisturbed world config connection)
    (hstart : (world.moment 0).now < receiveDeadline config.timeouts connection)
    (h : Reading world config connection view run) (hnone : run.request.request = none) :
    ∃ run', receiveMore world config run = (run',none) ∧ Reading world config connection view run' ∧
      run'.connection.unread.length < run.connection.unread.length := by
  obtain ⟨hlooks,hstored⟩ := hworld.prompt hstart
  have hcapacity := receiveCapacity_ne_zero hhandles
  have hunread : run.connection.unread ≠ [] := by
    intro hend
    have hholds := h.holds
    rw [hend,pieces,dif_pos (Or.inr rfl)] at hholds
    exact absurd (hnone.symm.trans (Except.ok.inj hholds)) (by simp)
  have hsize := List.length_pos_iff.mpr hunread
  have hlook := h.looks
  have hopen : interruptionStatus (world.moment run.looks)
      (some (boundedReadDeadline config run (readPhase run))) = .none := by
    have htime := h.inTime hunread
    rw [boundedReadDeadline_eq hhandles]
    simp [interruptionStatus,hworld.running,Int.not_le.mpr htime]
  obtain ⟨connection',hreceive,hrest,hpeer,-⟩ :=
    TcpConnection.receive_unread (world.receive run.receives) hcapacity hunread hopen
  have hholds := h.holds
  rw [pieces,dif_neg (not_or.mpr ⟨hcapacity,hunread⟩),← hrest] at hholds
  obtain ⟨request',hfeed,hingest⟩ := ingest_step hholds hnone
  -- the worker's own time is short of every budget that a recorded read leaves
  let deadlines := run.deadlines.recordProgress (world.moment (run.looks + 1)).now
  have hbudget (readingBody : Bool) :
      workLimit config.timeouts connection (world.moment 0).now ≤ deadlines.next readingBody := by
    have hnext := deadlines.le_next readingBody
    have hlater := (hlooks (run.looks + 1) (by omega)).1
    have hprogress : (world.moment 0).now ≤ deadlines.lastProgress := hlater.trans (le_max_right _ _)
    have htimeouts : deadlines.timeouts = config.timeouts := h.timeouts
    have htotal : deadlines.total = connection.acceptedAt + milliseconds config.timeouts.total := h.total
    rw [htimeouts,htotal] at hnext
    unfold workLimit
    omega
  let run1 : ConnectionRun := { run with
    connection := connection'
    deadlines := deadlines
    looks := run.looks + 1 + 1
    receives := run.receives + 1 }
  have henv : storageUnder world (boundedReadDeadline config run1 .body) = .reliable := by
    rw [boundedReadDeadline_eq hhandles]
    exact storageUnder_reliable hworld (fun n => lt_of_lt_of_le (hstored n) (hbudget _))
  have hnonempty : (run.connection.unread.take (receiveCapacity config)).isEmpty = false := by
    simp [hcapacity,hunread]
  have hround : receiveMore world config run = ({ run1 with request := request' },none) := by
    unfold receiveMore receiveWithOptions
    dsimp only
    rw [hreceive]
    dsimp only
    rw [hnonempty,if_neg (by decide)]
    change feedReceived world config run1 _ = _
    have hfed : run1.request.feed .reliable (run.connection.unread.take (receiveCapacity config)) =
        (request',.ok ()) := hfeed
    unfold feedReceived
    rw [henv,hfed]
  have hshorter : connection'.unread.length < run.connection.unread.length := by
    rw [hrest,List.length_drop]
    omega
  refine ⟨_,hround,?_,hshorter⟩
  refine ⟨hingest,h.calm,hpeer.trans h.peer,h.timeouts,h.total,?_,?_⟩
  · dsimp only [run1]
    omega
  · intro hmore
    have hleft := List.length_pos_iff.mpr hmore
    dsimp only [run1] at hleft
    exact lt_of_lt_of_le (hlooks (run.looks + 1 + 1) (by omega)).2 (hbudget _)

def answerOrReceive (world : ConnectionWorld) (config : HttpConnectionHandlerConfig)
    (application : HttpApplication) (run : ConnectionRun) : ConnectionRun × Option (Except NetworkError Unit) :=
  match run.request.request with
  | some view =>
    let result := answerRequest world config application run view
    (result.1,some result.2)
  | none => receiveMore world config run

/-- How a round ends that does not go on. -/
def Succeeds (config : HttpConnectionHandlerConfig) (connection : TcpConnection) (view : HttpRequestView)
    (outcome : ConnectionRun × Option (Except NetworkError Unit)) : Prop :=
  ¬ReportsReceiveTimeout outcome.1 ∧ Proceeds config connection.peerEndpoint view outcome

theorem unsupported_succeeds (world : ConnectionWorld) (application : HttpApplication) {head : HttpRequestHead}
    (h : Reading world config connection view run) (hhead : run.request.head = some head)
    (hunsupported : ¬Supported head.fields)
    (htake : takeExpectation run.request run.expectationChecked = (.unsupported,true)) :
    Succeeds config connection view (roundHttpConnection world config application run) := by
  let run1 : ConnectionRun := { run with expectationChecked := true }
  have hanswered := sendErrorResponse_answered world config (run1.record .unsupportedExpectation)
    .expectationFailed (by decide)
  have hcalm : ¬ReportsReceiveTimeout (run1.record .unsupportedExpectation) := record_calm h.calm rfl
  have hfields := ingest_fields hhead h.holds
  unfold roundHttpConnection
  rw [htake]
  simp only [respondToExpectation]
  rcases hsend : sendErrorResponse world config (run1.record .unsupportedExpectation) .expectationFailed
    with ⟨run',e | u⟩
  · rw [hsend] at hanswered
    exact ⟨hanswered.calm hcalm,rfl,fun hsupported => absurd (hfields ▸ hsupported) hunsupported⟩
  · rw [hsend] at hanswered
    exact ⟨hanswered.calm hcalm,rfl,fun hsupported => absurd (hfields ▸ hsupported) hunsupported⟩

/-- The expectation is refused, or the round goes on to the request. -/
theorem expectation_reading (application : HttpApplication) (hworld : Undisturbed world config connection)
    (h : Reading world config connection view run) :
    Succeeds config connection view (roundHttpConnection world config application run) ∨
    ∃ run1, Reading world config connection view run1 ∧ run1.connection = run.connection ∧
      roundHttpConnection world config application run = answerOrReceive world config application run1 := by
  rcases takeExpectation_cases run.request run.expectationChecked with
    ⟨hhead,htake⟩ | ⟨head,hhead,hchecked,htake⟩ | ⟨head,hhead,hchecked,hunsupported,htake⟩ |
    ⟨head,hhead,hchecked,hsupported,htake⟩ | ⟨head,hhead,hchecked,hsupported,hasks,hincomplete,htake⟩
  · refine Or.inr ⟨run,h,rfl,?_⟩
    unfold roundHttpConnection
    rw [htake]
    rfl
  · refine Or.inr ⟨{ run with expectationChecked := true },
      ⟨h.holds,h.calm,h.peer,h.timeouts,h.total,h.looks,h.inTime⟩,rfl,?_⟩
    unfold roundHttpConnection
    rw [htake]
    rfl
  · exact Or.inl (unsupported_succeeds world application h hhead hunsupported htake)
  · refine Or.inr ⟨{ run with expectationChecked := true },
      ⟨h.holds,h.calm,h.peer,h.timeouts,h.total,h.looks,h.inTime⟩,rfl,?_⟩
    unfold roundHttpConnection
    rw [htake]
    rfl
  · have hsent := sendAll_ok hworld.sends run.wire interimResponse
    rcases hsend : sendAll world.send run.wire interimResponse with ⟨wire,result⟩
    rw [hsend] at hsent
    dsimp only at hsent
    subst hsent
    refine Or.inr ⟨{ run.record (.interim run.request) with expectationChecked := true, wire := wire },
      ⟨h.holds,record_calm h.calm rfl,h.peer,h.timeouts,h.total,h.looks,h.inTime⟩,rfl,?_⟩
    unfold roundHttpConnection
    rw [htake]
    simp only [respondToExpectation,hsend]
    rfl

theorem round_reading (application : HttpApplication) (hhandles : Handles config connection)
    (hworld : Undisturbed world config connection)
    (hstart : (world.moment 0).now < receiveDeadline config.timeouts connection)
    (h : Reading world config connection view run) :
    Succeeds config connection view (roundHttpConnection world config application run) ∨
    ∃ run', roundHttpConnection world config application run = (run',none) ∧
      Reading world config connection view run' ∧
      run'.connection.unread.length < run.connection.unread.length := by
  rcases expectation_reading application hworld h with hdone | ⟨run1,hreading,hsame,hround⟩
  · exact Or.inl hdone
  · rw [hround,← hsame]
    unfold answerOrReceive
    cases hview : run1.request.request with
    | some view' =>
      have hsame' : view' = view := by
        have hholds := hreading.holds
        have hcomplete := request_complete hview
        generalize pieces (receiveCapacity config) run1.connection.unread = fragments at hholds
        cases fragments with
        | nil => simpa [BufferedRequest.ingest,hview] using hholds
        | cons f fragments => simpa [BufferedRequest.ingest,hview,hcomplete] using hholds
      subst hsame'
      left
      have hanswer := @answerRequest_proceeds run1 view' world config application hreading.calm
      rw [hreading.peer] at hanswer
      exact hanswer
    | none =>
      right
      exact receiveMore_reading hhandles hworld hstart hreading hview

/-- The whole buffer is read, and the run ends with the request. -/
theorem run_reading (application : HttpApplication) (hhandles : Handles config connection)
    (hworld : Undisturbed world config connection)
    (hstart : (world.moment 0).now < receiveDeadline config.timeouts connection)
    (h : Reading world config connection view run) :
    (∀ rounds, ¬ReportsReceiveTimeout (runHttpConnection world config application rounds run).1) ∧
    ∃ rounds, Proceeds config connection.peerEndpoint view
      (runHttpConnection world config application rounds run) := by
  -- every round that goes on makes the rest of the buffer shorter
  induction hn : run.connection.unread.length using Nat.strong_induction_on generalizing run with
  | _ n ih =>
    rcases round_reading application hhandles hworld hstart h with hdone | ⟨run',hround,hreading,hshorter⟩
    · rcases hround : roundHttpConnection world config application run with ⟨run',_ | result⟩
      · rw [hround] at hdone
        exact absurd hdone.2.ended (by simp)
      · rw [hround] at hdone
        have hrun (rounds : ℕ) : runHttpConnection world config application (rounds + 1) run =
            (run',some result) := by
          rw [runHttpConnection,hround]
        refine ⟨?_,1,?_⟩
        · intro rounds
          cases rounds with
          | zero => exact h.calm
          | succ rounds =>
            rw [hrun]
            exact hdone.1
        · rw [hrun]
          exact hdone.2
    · have hrun (rounds : ℕ) : runHttpConnection world config application (rounds + 1) run =
          runHttpConnection world config application rounds run' := by
        rw [runHttpConnection,hround]
      obtain ⟨hcalm,rounds,hproceeds⟩ := ih _ (hn ▸ hshorter) hreading rfl
      refine ⟨?_,rounds + 1,?_⟩
      · intro rounds
        cases rounds with
        | zero => exact h.calm
        | succ rounds =>
          rw [hrun]
          exact hcalm rounds
      · rw [hrun]
        exact hproceeds

theorem handleHttpConnection_eq (world : ConnectionWorld) (application : HttpApplication)
    {deadlines : RequestDeadlines} (hhandles : Handles config connection)
    (hdeadlines : RequestDeadlines.create config.timeouts connection.acceptedAt = some deadlines) (rounds : ℕ) :
    handleHttpConnection world config (some application) connection rounds =
      runHttpConnection world config application rounds
        (.start config connection (deadlines.recordProgress connection.lastReceiveProgress)) := by
  unfold handleHttpConnection
  rw [hdeadlines]
  dsimp only
  rw [if_neg hhandles.bounds,hhandles.peer,if_neg (by decide)]

theorem start_reading {deadlines : RequestDeadlines}
    (hdeadlines : RequestDeadlines.create config.timeouts connection.acceptedAt = some deadlines)
    (hrequest : HoldsRequest config connection view)
    (hstart : (world.moment 0).now < receiveDeadline config.timeouts connection) :
    Reading world config connection view
      (.start config connection (deadlines.recordProgress connection.lastReceiveProgress)) := by
  have hfirst := next_start hdeadlines
  obtain ⟨-,-,-,rfl⟩ := create_deadlines hdeadlines
  refine ⟨hrequest,?_,rfl,rfl,rfl,?_,?_⟩
  · rintro ⟨effect,heffect,-⟩
    cases heffect
  · exact (Nat.zero_add _).le
  · intro _
    rw [← hfirst] at hstart
    exact hstart

theorem runHttpConnection_some {application : HttpApplication} {run run' : ConnectionRun} {rounds : ℕ}
    {result : Except NetworkError Unit}
    (h : roundHttpConnection world config application run = (run',some result)) :
    runHttpConnection world config application (rounds + 1) run = (run',some result) := by
  rw [runHttpConnection,h]

/-- A worker that starts at the deadline or later reads nothing, whatever is in the buffer. -/
theorem late_start_times_out (application : HttpApplication) (hhandles : Handles config connection)
    (hrunning : (world.moment 0).stopRequested = false)
    (hlate : receiveDeadline config.timeouts connection ≤ (world.moment 0).now) :
    ReportsReceiveTimeout (handleHttpConnection world config (some application) connection 1).1 := by
  obtain ⟨deadlines,hdeadlines⟩ := Option.isSome_iff_exists.mp hhandles.deadlines
  rw [handleHttpConnection_eq world application hhandles hdeadlines]
  let run : ConnectionRun := .start config connection (deadlines.recordProgress connection.lastReceiveProgress)
  have hexpired : interruptionStatus (world.moment run.looks)
      (some (boundedReadDeadline config run (readPhase run))) = .deadlineExceeded := by
    have hnext : boundedReadDeadline config run (readPhase run) = receiveDeadline config.timeouts connection := by
      rw [boundedReadDeadline_eq hhandles]
      exact next_start hdeadlines
    have hlook : run.looks = 0 := rfl
    rw [hnext,hlook]
    simp [interruptionStatus,hrunning,hlate]
  have hreceive : receiveMore world config run =
      (({ run with looks := 1, receives := 1 } : ConnectionRun).record (.receiveFailed ⟨.receive,.timeout,0⟩),
        some (.error ⟨.receive,.timeout,0⟩)) := by
    unfold receiveMore receiveWithOptions
    dsimp only
    rw [receive_expired (world.receive run.receives) (receiveCapacity_ne_zero hhandles) hexpired]
    rfl
  have hround : roundHttpConnection world config application run = receiveMore world config run := rfl
  rw [runHttpConnection_some (hround.trans hreceive)]
  exact ⟨.receiveFailed ⟨.receive,.timeout,0⟩,List.mem_append_right _ (List.mem_singleton.mpr rfl),rfl⟩

/-- A buffered request is dispatched without a receive timeout exactly when its worker starts
before the deadline that the accept time and the last receive have set. -/
theorem queued_request_dispatched_iff (world : ConnectionWorld) (config : HttpConnectionHandlerConfig)
    (application : HttpApplication) (connection : TcpConnection) (view : HttpRequestView)
    (hhandles : Handles config connection) (hrequest : HoldsRequest config connection view)
    (hworld : Undisturbed world config connection) :
    ((∀ rounds, ¬ReportsReceiveTimeout
        (handleHttpConnection world config (some application) connection rounds).1) ∧
      ∃ rounds, Proceeds config connection.peerEndpoint view
        (handleHttpConnection world config (some application) connection rounds)) ↔
    (world.moment 0).now < receiveDeadline config.timeouts connection := by
  constructor
  · rintro ⟨hcalm,-⟩
    by_contra hlate
    exact hcalm 1 (late_start_times_out application hhandles (hworld.running 0) (by omega))
  · intro hstart
    obtain ⟨deadlines,hdeadlines⟩ := Option.isSome_iff_exists.mp hhandles.deadlines
    simp only [handleHttpConnection_eq world application hhandles hdeadlines]
    exact run_reading application hhandles hworld hstart (start_reading hdeadlines hrequest hstart)

/-- A small request, complete one millisecond after its connection was accepted. -/
def queuedConnection : TcpConnection where
  peerEndpoint := ⟨ascii "127.0.0.1",40000⟩
  acceptedAt := 0
  lastReceiveProgress := milliseconds 1
  prefetched := ascii "GET / HTTP/1.1\r\nHost: h\r\n\r\n"

def queuedRequest : HttpRequestView := ⟨.get,ascii "/",[⟨ascii "Host",ascii "h"⟩],[]⟩

/-- A world in which nothing happens but that the worker starts at some time. -/
def worldAt (start : ℤ) : ConnectionWorld where
  moment _ := ⟨false,start⟩
  receive _ := .ok []
  send _ := .ok 1024
  shutdownSend := .ok ()
  storage := .reliable
  storageMoment _ := ⟨false,start⟩
  date := ascii "Thu, 01 Jan 1970 00:00:00 GMT"

theorem queuedConnection_handles : Handles {} queuedConnection :=
  ⟨by decide,by decide,by decide +kernel,rfl⟩

theorem queuedConnection_holds : HoldsRequest {} queuedConnection queuedRequest := by
  unfold HoldsRequest
  decide +kernel

theorem worldAt_undisturbed (start : ℤ) : Undisturbed (worldAt start) {} queuedConnection where
  create _ := rfl
  write _ := rfl
  complete _ := rfl
  share _ := rfl
  allocate _ := rfl
  sends _ := ⟨1023,rfl⟩
  running _ := rfl
  storing _ := rfl
  prompt hstart := by
    have hlimit : start < workLimit {} queuedConnection start := by
      simp only [worldAt,receiveDeadline,queuedConnection,milliseconds] at hstart
      simp only [workLimit,queuedConnection,milliseconds]
      omega
    exact ⟨fun n _ => ⟨le_rfl,hlimit⟩,fun n => hlimit⟩

theorem queued_request_dispatched_iff_prompt :
    ∃ rounds, Proceeds {} queuedConnection.peerEndpoint queuedRequest
      (handleHttpConnection (worldAt (milliseconds 2)) {} (some (fun _ _ => .threw)) queuedConnection rounds) :=
  ((queued_request_dispatched_iff (worldAt (milliseconds 2)) {} (fun _ _ => .threw) queuedConnection
    queuedRequest queuedConnection_handles queuedConnection_holds (worldAt_undisturbed _)).mpr
      (by decide)).2

/-- The request is complete one millisecond after the accept, and a worker that is free fifteen
seconds later reports a receive timeout. -/
theorem queued_request_times_out :
    Admitted (makeHttpConnectionAdmission {}) (.accepted ⟨ascii "127.0.0.1",40000⟩ 0)
      (.promoted .markerFound queuedConnection) ∧
    HoldsRequest {} queuedConnection queuedRequest ∧
    queuedConnection.lastReceiveProgress < receiveDeadline {} queuedConnection ∧
    Undisturbed (worldAt (milliseconds 15000)) {} queuedConnection ∧
    ReportsReceiveTimeout (handleHttpConnection (worldAt (milliseconds 15000)) {}
      (some (fun _ _ => .threw)) queuedConnection 1).1 := by
  refine ⟨?_,queuedConnection_holds,by decide,worldAt_undisturbed _,
    late_start_times_out _ queuedConnection_handles rfl (by decide)⟩
  have hfits : (Admission.waiting (.start (.accepted ⟨ascii "127.0.0.1",40000⟩ 0))).Fits
      (makeHttpConnectionAdmission {}) (.readable (milliseconds 1) (.received queuedConnection.prefetched)) := by
    change _ ≤ _
    decide +kernel
  have hpromoted : Admission.step (makeHttpConnectionAdmission {})
      (.waiting (.start (.accepted ⟨ascii "127.0.0.1",40000⟩ 0)))
      (.readable (milliseconds 1) (.received queuedConnection.prefetched)) =
      .promoted .markerFound queuedConnection := by
    decide +kernel
  rw [← hpromoted]
  exact .step .start hfits

end SpareNode.Http
