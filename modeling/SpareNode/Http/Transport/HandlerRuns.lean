import SpareNode.Http.Transport.ConnectionHandler

/-! # Runs of the connection handler

What the log and the wire of a run can look like. While the handler receives, it has sent
nothing or one interim response; the round that ends it adds a short tail: a failure, a call of
the application, a final response.
-/
namespace SpareNode.Http
open Concurrency Network Storage

variable {world : ConnectionWorld} {config : HttpConnectionHandlerConfig}
  {application : HttpApplication} {run run' : ConnectionRun} {peer : TcpEndpoint}

/-- Every member of every Expect list is empty or asks to continue. -/
def Supported (fields : List HttpHeaderView) : Prop :=
  ∀ value ∈ headerValues fields "Expect", ∀ item ∈ value.splitOn (char ','),
    trimOptionalWhitespace item ≠ [] →
      asciiCaseInsensitiveEqual (trimOptionalWhitespace item) (ascii "100-continue") = true

def Asks (request : BufferedRequest) : Prop :=
  ∃ head, request.head = some head ∧ ∃ value ∈ headerValues head.fields "Expect", asksSomething value = true

theorem supportedExpectations_iff (value : Bytes) : supportedExpectations value = true ↔
    ∀ item ∈ value.splitOn (char ','), trimOptionalWhitespace item ≠ [] →
      asciiCaseInsensitiveEqual (trimOptionalWhitespace item) (ascii "100-continue") = true := by
  fun_induction supportedExpectations value with
  | case1 value hcomma item =>
    rw [List.splitOn_eq_singleton (find_eq_none_iff.mp hcomma)]
    simp [item,or_iff_not_imp_left]
  | case2 value comma hcomma item ih =>
    obtain ⟨a,b,rfl,ha,rfl⟩ := find_eq_some_iff.mp hcomma
    have htail : (a ++ char ',' :: b).drop (a.length + 1) = b := drop_cons_append a b _
    rw [htail] at ih
    rw [List.splitOn_append_cons_self_of_not_mem ha,Bool.and_eq_true,htail,ih,List.forall_mem_cons]
    refine and_congr ?_ Iff.rfl
    simp [item,or_iff_not_imp_left]

theorem takeExpectation_cases (request : BufferedRequest) (checked : Bool) :
    (request.head = none ∧ takeExpectation request checked = (.none,checked)) ∨
    (∃ head, request.head = some head ∧ checked = true ∧ takeExpectation request checked = (.none,true)) ∨
    (∃ head, request.head = some head ∧ checked = false ∧ ¬Supported head.fields ∧
      takeExpectation request checked = (.unsupported,true)) ∨
    (∃ head, request.head = some head ∧ checked = false ∧ Supported head.fields ∧
      takeExpectation request checked = (.none,true)) ∨
    (∃ head, request.head = some head ∧ checked = false ∧ Supported head.fields ∧ Asks request ∧
      request.complete = false ∧ takeExpectation request checked = (.continueRequest,true)) := by
  unfold takeExpectation
  cases hhead : request.head with
  | none => simp
  | some head =>
    right
    cases checked with
    | true => exact Or.inl ⟨head,rfl,rfl,rfl⟩
    | false =>
      right
      dsimp only
      rw [if_neg (by decide)]
      split
      · rename_i hany
        obtain ⟨value,hvalue,hrefused⟩ := List.any_eq_true.mp hany
        refine Or.inl ⟨head,rfl,rfl,?_,rfl⟩
        intro hsupported
        rw [(supportedExpectations_iff value).mpr (hsupported value hvalue)] at hrefused
        cases hrefused
      · rename_i hany
        have hsupported : Supported head.fields := by
          intro value hvalue
          rw [← supportedExpectations_iff]
          by_contra hne
          exact hany (List.any_eq_true.mpr ⟨value,hvalue,by simpa using hne⟩)
        right
        split
        · rename_i hasks
          rw [Bool.and_eq_true,List.any_eq_true,Bool.not_eq_true'] at hasks
          exact Or.inr ⟨head,rfl,rfl,hsupported,⟨head,hhead,hasks.1⟩,hasks.2,rfl⟩
        · exact Or.inl ⟨head,rfl,rfl,hsupported,rfl⟩

/-- Only the clock, the socket's input and the connection may have changed. -/
structure Quiet (before after : ConnectionRun) : Prop where
  log : after.log = before.log
  wire : after.wire = before.wire

theorem Quiet.trans {a b c : ConnectionRun} (h : Quiet a b) (h' : Quiet b c) : Quiet a c :=
  ⟨h'.log.trans h.log,h'.wire.trans h.wire⟩

theorem Quiet.looked {a b : ConnectionRun} (h : Quiet a.look.look b) : Quiet a b := ⟨h.log,h.wire⟩

theorem Quiet.request (run : ConnectionRun) (request : BufferedRequest) :
    Quiet run { run with request := request } := ⟨rfl,rfl⟩

theorem receiveWithOptions_quiet {capacity : ℕ} {deadline : Option ℤ} {result : Except NetworkError Bytes}
    (h : receiveWithOptions world run capacity deadline = (run',result)) : Quiet run run' := by
  cases h
  exact ⟨rfl,rfl⟩

theorem drainLoop_quiet (world : ConnectionWorld) (deadline : ℤ) (run : ConnectionRun) (remaining : ℕ) :
    Quiet run (drainLoop world deadline run remaining).1 := by
  fun_induction drainLoop world deadline run remaining with
  | case1 => exact ⟨rfl,rfl⟩
  | case2 => exact ⟨rfl,rfl⟩
  | case3 => exact ⟨rfl,rfl⟩
  | case4 run remaining hdone hstop hdeadline run' e hreceive htimeout =>
    exact (receiveWithOptions_quiet hreceive).looked
  | case5 run remaining hdone hstop hdeadline run' e hreceive htimeout =>
    exact (receiveWithOptions_quiet hreceive).looked
  | case6 run remaining hdone hstop hdeadline run' bytes hreceive hend =>
    exact (receiveWithOptions_quiet hreceive).looked
  | case7 run remaining hdone hstop hdeadline run' bytes hreceive hend ih =>
    exact (receiveWithOptions_quiet hreceive).looked.trans ih

theorem drainAfterResponse_quiet (world : ConnectionWorld) (config : HttpConnectionHandlerConfig)
    (run : ConnectionRun) : Quiet run (drainAfterResponse world config run).1 := by
  unfold drainAfterResponse
  split
  · exact ⟨rfl,rfl⟩
  · split
    · exact ⟨rfl,rfl⟩
    · exact (drainLoop_quiet world _ run.look.look _).looked

/-- At most one final response has gone out, or a beginning of it. -/
inductive Answered (before after : ConnectionRun) : Prop where
  | silent (quiet : Quiet before after)
  | responded (response : HttpResponse) (requestMethod : HttpMethod) (part : Bytes)
      (final : HttpStatusCode.ok.value ≤ response.statusCode.value)
      (beginning : part <+: responseBytes response requestMethod)
      (log : after.log = before.log ++ [.final response requestMethod])
      (sent : after.wire.sent = before.wire.sent ++ part)

theorem sendFinalResponse_answered (world : ConnectionWorld) (config : HttpConnectionHandlerConfig)
    (run : ConnectionRun) (response : HttpResponse) (requestMethod : HttpMethod)
    (hfinal : HttpStatusCode.ok.value ≤ response.statusCode.value) :
    Answered run (sendFinalResponse world config run response requestMethod).1 := by
  have hwrites := writeHttpResponse_writes world.send run.wire response requestMethod
  obtain ⟨part,hpart,hsent⟩ := hwrites.added
  unfold sendFinalResponse
  rcases hwrite : writeHttpResponse world.send run.wire response requestMethod with ⟨wire,e | u⟩
  · rw [hwrite] at hsent
    exact .responded response requestMethod part hfinal hpart rfl hsent
  · rw [hwrite] at hsent
    have hquiet := drainAfterResponse_quiet world config
      { run.record (.final response requestMethod) with wire := wire }
    refine .responded response requestMethod part hfinal hpart hquiet.log ?_
    dsimp only
    rw [hquiet.wire]
    exact hsent

theorem makeErrorResponse_status {date : Bytes} {status : HttpStatusCode} {response : HttpResponse}
    (h : makeErrorResponse date status = .ok response) : response.statusCode = status := by
  unfold makeErrorResponse HttpResponse.create at h
  split at h
  · cases h
  · rename_i hcreate
    split at hcreate
    · cases hcreate
    · split at hcreate
      · cases hcreate
      · cases hcreate
        cases h
        rfl

theorem sendErrorResponse_answered (world : ConnectionWorld) (config : HttpConnectionHandlerConfig)
    (run : ConnectionRun) (status : HttpStatusCode) (hfinal : HttpStatusCode.ok.value ≤ status.value) :
    Answered run (sendErrorResponse world config run status).1 := by
  unfold sendErrorResponse
  split
  · exact .silent ⟨rfl,rfl⟩
  · rename_i response hresponse
    apply sendFinalResponse_answered world config run response .get
    rw [makeErrorResponse_status hresponse]
    exact hfinal

/-- What is established when the application is called. -/
structure Dispatched (config : HttpConnectionHandlerConfig) (peer : TcpEndpoint) (request : BufferedRequest)
    (view : HttpRequestView) (transport : HttpRequestTransportContext) : Prop where
  complete : request.request = some view
  supported : Supported view.fields
  resolved : resolveHttpTransport config.transportPolicy peer view.fields = .ok transport

/-- The handler stopped receiving or storing because it was interrupted. -/
def BufferedRequestError.interrupted (error : BufferedRequestError) : Bool := error.cancelled || error.timedOut

/-- The effects that a last round starts with, and whether a response may follow. -/
inductive Verdict (config : HttpConnectionHandlerConfig) (peer : TcpEndpoint) : List Effect → Bool → Prop where
  | closed : Verdict config peer [] true
  | unsupported : Verdict config peer [.unsupportedExpectation] true
  | receiveFailed (error : NetworkError) : Verdict config peer [.receiveFailed error] false
  | requestFailed (error : BufferedRequestError) :
      Verdict config peer [.requestFailed error] (!error.interrupted)
  | transportRejected (code : HttpTransportErrorCode) : Verdict config peer [.transportRejected code] true
  | called (request : BufferedRequest) (view : HttpRequestView) (transport : HttpRequestTransportContext)
      (dispatched : Dispatched config peer request view transport) :
      Verdict config peer [.called request view transport] true

/-- How the last round takes a run to its end. -/
inductive Ending (config : HttpConnectionHandlerConfig) (peer : TcpEndpoint) (before after : ConnectionRun) :
    Prop where
  | silent (effects : List Effect) (answers : Bool) (verdict : Verdict config peer effects answers)
      (log : after.log = before.log ++ effects) (sent : after.wire.sent = before.wire.sent)
  | responded (effects : List Effect) (verdict : Verdict config peer effects true)
      (response : HttpResponse) (requestMethod : HttpMethod) (part : Bytes)
      (final : HttpStatusCode.ok.value ≤ response.statusCode.value)
      (beginning : part <+: responseBytes response requestMethod)
      (log : after.log = before.log ++ effects ++ [.final response requestMethod])
      (sent : after.wire.sent = before.wire.sent ++ part)

theorem Answered.ending {before recorded after : ConnectionRun} {effects : List Effect}
    (h : Answered recorded after) (hverdict : Verdict config peer effects true)
    (hlog : recorded.log = before.log ++ effects) (hwire : recorded.wire = before.wire) :
    Ending config peer before after := by
  cases h with
  | silent quiet =>
    refine .silent effects true hverdict ?_ ?_
    · rw [quiet.log,hlog]
    · rw [quiet.wire,hwire]
  | responded response requestMethod part final beginning log sent =>
    refine .responded effects hverdict response requestMethod part final beginning ?_ ?_
    · rw [log,hlog]
    · rw [sent,hwire]

theorem parseErrorStatus_final (code : HttpRequestParseErrorCode) :
    HttpStatusCode.ok.value ≤ (parseErrorStatus code).value := by
  cases code <;> decide

theorem requestErrorStatus_final (error : BufferedRequestError) :
    HttpStatusCode.ok.value ≤ (requestErrorStatus error).value := by
  unfold requestErrorStatus
  split
  · exact parseErrorStatus_final _
  · split
    · decide
    · exact parseErrorStatus_final _
    · decide

theorem transportErrorStatus_final (code : HttpTransportErrorCode) :
    HttpStatusCode.ok.value ≤ (transportErrorStatus code).value := by
  unfold transportErrorStatus
  split <;> decide

theorem respondToRequestFailure_ending (peer : TcpEndpoint) (world : ConnectionWorld) (config : HttpConnectionHandlerConfig)
    (run : ConnectionRun) (error : BufferedRequestError) :
    Ending config peer run (respondToRequestFailure world config run error).1 := by
  unfold respondToRequestFailure
  dsimp only
  split
  · exact .silent _ _ (.requestFailed error) rfl rfl
  · split
    · exact .silent _ _ (.requestFailed error) rfl rfl
    · rename_i hcancelled htimed
      have hverdict : Verdict config peer [.requestFailed error] true := by
        have hnot : error.interrupted = false := by
          simp [BufferedRequestError.interrupted,hcancelled,htimed]
        simpa [hnot] using @Verdict.requestFailed config peer error
      exact (sendErrorResponse_answered world config _ _ (requestErrorStatus_final error)).ending
        hverdict rfl rfl

theorem dispatchAndRespond_ending (world : ConnectionWorld) (config : HttpConnectionHandlerConfig)
    (application : HttpApplication) {run : ConnectionRun} {view : HttpRequestView}
    {transport : HttpRequestTransportContext} (h : Dispatched config peer run.request view transport) :
    Ending config peer run (dispatchAndRespond world config application run view transport).1 := by
  have hverdict : Verdict config peer [.called run.request view transport] true := .called _ _ _ h
  have hfailed := sendErrorResponse_answered world config
    (run.record (.called run.request view transport)) .internalServerError (by decide)
  unfold dispatchAndRespond
  dsimp only
  split
  · exact .silent _ _ hverdict rfl rfl
  · exact hfailed.ending hverdict rfl rfl
  · rename_i response hresponse
    split
    · exact hfailed.ending hverdict rfl rfl
    · rename_i hstatus
      exact (sendFinalResponse_answered world config _ response view.method (by omega)).ending
        hverdict rfl rfl

theorem answerRequest_ending (world : ConnectionWorld) (config : HttpConnectionHandlerConfig)
    (application : HttpApplication) {run : ConnectionRun} {view : HttpRequestView}
    (hcomplete : run.request.request = some view) (hsupported : Supported view.fields) :
    Ending config run.connection.peerEndpoint run (answerRequest world config application run view).1 := by
  unfold answerRequest
  split
  · rename_i code hcode
    exact (sendErrorResponse_answered world config _ _ (transportErrorStatus_final code)).ending
      (.transportRejected code) rfl rfl
  · rename_i transport htransport
    exact dispatchAndRespond_ending world config application ⟨hcomplete,hsupported,htransport⟩

theorem feed_head {env : StorageEnvironment} {request : BufferedRequest} {input : Bytes}
    {head : HttpRequestHead} (h : request.head = some head) :
    (request.feed env input).1.head = some head := by
  rw [BufferedRequest.feed,if_pos (by simp [h])]
  unfold BufferedRequest.feedBody
  split
  · exact h
  · split <;> exact h

theorem request_fields {request : BufferedRequest} {head : HttpRequestHead} {view : HttpRequestView}
    (hhead : request.head = some head) (h : request.request = some view) : view.fields = head.fields := by
  unfold BufferedRequest.request at h
  rw [hhead] at h
  split at h
  · rename_i head' g hhead' hg
    cases hhead'
    split at h
    · split at h <;> cases h <;> rfl
    · cases h
  · cases h

theorem connection_receive_peer (connection : TcpConnection) (capacity : ℕ) (moment : Moment)
    (deadline : Option ℤ) (socket : Except NetworkError Bytes) :
    (connection.receiveWithOptions capacity moment deadline socket).1.peerEndpoint =
      connection.peerEndpoint := by
  unfold TcpConnection.receiveWithOptions
  dsimp only
  repeat' split
  all_goals rfl

/-- A receive leaves all of a run alone but its connection and its counters. -/
structure Received (before after : ConnectionRun) : Prop where
  quiet : Quiet before after
  request : after.request = before.request
  checked : after.expectationChecked = before.expectationChecked
  peerEndpoint : after.connection.peerEndpoint = before.connection.peerEndpoint

theorem receiveWithOptions_received {capacity : ℕ} {deadline : Option ℤ}
    {result : Except NetworkError Bytes}
    (h : receiveWithOptions world run capacity deadline = (run',result)) : Received run run' := by
  cases h
  exact ⟨⟨rfl,rfl⟩,rfl,rfl,connection_receive_peer _ _ _ _ _⟩

theorem Ending.of_received {before middle after : ConnectionRun} (h : Quiet before middle)
    (hending : Ending config peer middle after) : Ending config peer before after := by
  cases hending with
  | silent effects answers verdict log sent =>
    exact .silent effects answers verdict (by rw [log,h.log]) (by rw [sent,h.wire])
  | responded effects verdict response requestMethod part final beginning log sent =>
    exact .responded effects verdict response requestMethod part final beginning (by rw [log,h.log])
      (by rw [sent,h.wire])

theorem endOfStream_ending (peer : TcpEndpoint) (world : ConnectionWorld)
    (config : HttpConnectionHandlerConfig) (run : ConnectionRun) (deadline : ℤ) :
    Ending config peer run (endOfStream world config run deadline).1 := by
  unfold endOfStream
  split
  · exact .silent _ _ .closed (by simp) rfl
  · split
    · rename_i request e hfinish
      exact Ending.of_received (Quiet.request run request)
        (respondToRequestFailure_ending peer world config { run with request := request } e)
    · rename_i request hfinish
      exact (sendErrorResponse_answered world config { run with request := request }
        .badRequest (by decide)).ending .closed (by simp) rfl

/-- What a round that does not end the run leaves alone. -/
structure Continues (before after : ConnectionRun) : Prop where
  quiet : Quiet before after
  checked : after.expectationChecked = before.expectationChecked
  peerEndpoint : after.connection.peerEndpoint = before.connection.peerEndpoint
  head : ∀ head, before.request.head = some head → after.request.head = some head

theorem feedReceived_cases (peer : TcpEndpoint) (world : ConnectionWorld)
    (config : HttpConnectionHandlerConfig) (run : ConnectionRun) (bytes : Bytes) :
    (∃ run', feedReceived world config run bytes = (run',none) ∧ Continues run run') ∨
    (∃ run' result, feedReceived world config run bytes = (run',some result) ∧
      Ending config peer run run') := by
  unfold feedReceived
  split
  · rename_i request e hfeed
    have hending := respondToRequestFailure_ending peer world config { run with request := request } e
    exact Or.inr ⟨_,_,rfl,Ending.of_received (Quiet.request run request) hending⟩
  · rename_i request hfeed
    refine Or.inl ⟨_,rfl,⟨rfl,rfl⟩,rfl,rfl,?_⟩
    intro head hhead
    have hkept := @feed_head (storageUnder world (boundedReadDeadline config run .body)) run.request bytes
      head hhead
    rw [hfeed] at hkept
    exact hkept

theorem receiveMore_cases (peer : TcpEndpoint) (world : ConnectionWorld)
    (config : HttpConnectionHandlerConfig) (run : ConnectionRun) :
    (∃ run', receiveMore world config run = (run',none) ∧ Continues run run') ∨
    (∃ run' result, receiveMore world config run = (run',some result) ∧
      Ending config peer run run') := by
  unfold receiveMore
  dsimp only
  split
  · rename_i run1 e hreceive
    have hreceived := receiveWithOptions_received hreceive
    exact Or.inr ⟨_,_,rfl,Ending.of_received hreceived.quiet (.silent _ _ (.receiveFailed e) rfl rfl)⟩
  · rename_i run1 bytes hreceive
    have hreceived := receiveWithOptions_received hreceive
    split
    · exact Or.inr ⟨_,_,rfl,Ending.of_received hreceived.quiet (endOfStream_ending peer world config _ _)⟩
    · have hquiet : Quiet run (recordReceive world run1) := ⟨hreceived.quiet.log,hreceived.quiet.wire⟩
      rcases feedReceived_cases peer world config (recordReceive world run1) bytes with
        ⟨run',hrun',hnext⟩ | ⟨run',result,hrun',hending⟩
      · refine Or.inl ⟨run',hrun',hquiet.trans hnext.quiet,hnext.checked.trans hreceived.checked,
          hnext.peerEndpoint.trans hreceived.peerEndpoint,?_⟩
        intro head hhead
        exact hnext.head head (hreceived.request ▸ hhead)
      · exact Or.inr ⟨run',result,hrun',Ending.of_received hquiet hending⟩

/-- What has gone out while a request is received. -/
inductive Begun : List Effect → Bytes → Prop where
  | silent : Begun [] []
  | continued (request : BufferedRequest) (asks : Asks request) (incomplete : request.complete = false) :
      Begun [.interim request] interimResponse

structure Receiving (peer : TcpEndpoint) (run : ConnectionRun) : Prop where
  begun : Begun run.log run.wire.sent
  checked : run.expectationChecked = true → ∃ head, run.request.head = some head ∧ Supported head.fields
  unchecked : run.expectationChecked = false → run.log = [] ∧ run.wire.sent = []
  peerEndpoint : run.connection.peerEndpoint = peer

inductive Finished (config : HttpConnectionHandlerConfig) (peer : TcpEndpoint) (run : ConnectionRun) :
    Prop where
  | continuing (request : BufferedRequest) (asks : Asks request) (incomplete : request.complete = false)
      (log : run.log = [.interim request]) (sent : run.wire.sent <+: interimResponse)
  | ended (before : ConnectionRun) (begun : Begun before.log before.wire.sent)
      (ending : Ending config peer before run)

theorem respondToExpectation_unsupported (peer : TcpEndpoint) (world : ConnectionWorld)
    (config : HttpConnectionHandlerConfig) (run : ConnectionRun) :
    (∃ run' e, respondToExpectation world config run .unsupported = (run',.error e) ∧
      Ending config peer run run') ∨
    (∃ run', respondToExpectation world config run .unsupported = (run',.ok false) ∧
      Ending config peer run run') := by
  have hanswered := sendErrorResponse_answered world config (run.record .unsupportedExpectation)
    .expectationFailed (by decide)
  have hending : Ending config peer run
      (sendErrorResponse world config (run.record .unsupportedExpectation) .expectationFailed).1 :=
    hanswered.ending .unsupported rfl rfl
  rcases hsend : sendErrorResponse world config (run.record .unsupportedExpectation) .expectationFailed
    with ⟨run',e | u⟩
  · rw [hsend] at hending
    exact Or.inl ⟨run',e,by simp only [respondToExpectation,hsend],hending⟩
  · rw [hsend] at hending
    exact Or.inr ⟨run',by simp only [respondToExpectation,hsend],hending⟩

/-- Behind the expectation the request is answered or more is received. -/
theorem round_after_expectation (world : ConnectionWorld) (config : HttpConnectionHandlerConfig)
    (application : HttpApplication) (h : Receiving peer run)
    (hsupported : ∀ head, run.request.head = some head → Supported head.fields)
    {result : ConnectionRun × Option (Except NetworkError Unit)}
    (hresult : result = match run.request.request with
      | some view =>
        let answer := answerRequest world config application run view
        (answer.1,some answer.2)
      | none => receiveMore world config run) :
    (∃ run', result = (run',none) ∧ Receiving peer run') ∨
    (∃ run' r, result = (run',some r) ∧ Finished config peer run') := by
  cases hview : run.request.request with
  | some view =>
    rw [hview] at hresult
    obtain ⟨head,hhead⟩ : ∃ head, run.request.head = some head := by
      unfold BufferedRequest.request at hview
      split at hview
      · rename_i head g hhead hg
        exact ⟨head,hhead⟩
      · cases hview
    have hfields : Supported view.fields := by
      rw [request_fields hhead hview]
      exact hsupported head hhead
    have hending := answerRequest_ending world config application hview hfields
    rw [h.peerEndpoint] at hending
    exact Or.inr ⟨_,_,hresult,.ended run h.begun hending⟩
  | none =>
    rw [hview] at hresult
    dsimp only at hresult
    rcases receiveMore_cases peer world config run with ⟨run',hrun',hnext⟩ | ⟨run',r,hrun',hending⟩
    · refine Or.inl ⟨run',hresult.trans hrun',?_,?_,?_,?_⟩
      · rw [hnext.quiet.log,hnext.quiet.wire]
        exact h.begun
      · intro hchecked
        obtain ⟨head,hhead,hfields⟩ := h.checked (hnext.checked ▸ hchecked)
        exact ⟨head,hnext.head head hhead,hfields⟩
      · intro hunchecked
        rw [hnext.quiet.log,hnext.quiet.wire]
        exact h.unchecked (hnext.checked ▸ hunchecked)
      · rw [hnext.peerEndpoint,h.peerEndpoint]
    · exact Or.inr ⟨run',r,hresult.trans hrun',.ended run h.begun hending⟩

theorem roundHttpConnection_cases (world : ConnectionWorld) (config : HttpConnectionHandlerConfig)
    (application : HttpApplication) (h : Receiving peer run) :
    (∃ run', roundHttpConnection world config application run = (run',none) ∧ Receiving peer run') ∨
    (∃ run' r, roundHttpConnection world config application run = (run',some r) ∧
      Finished config peer run') := by
  rcases takeExpectation_cases run.request run.expectationChecked with
    ⟨hhead,htake⟩ | ⟨head,hhead,hchecked,htake⟩ | ⟨head,hhead,hchecked,-,htake⟩ |
    ⟨head,hhead,hchecked,hsupported,htake⟩ | ⟨head,hhead,hchecked,hsupported,hasks,hincomplete,htake⟩
  · apply round_after_expectation world config application h
    · intro head hsome
      rw [hhead] at hsome
      cases hsome
    · unfold roundHttpConnection
      rw [htake]
      rfl
  · apply round_after_expectation world config application h
    · intro head' hsome
      obtain ⟨head'',hhead'',hfields⟩ := h.checked hchecked
      rw [hsome] at hhead''
      cases hhead''
      exact hfields
    · unfold roundHttpConnection
      rw [htake]
      have hsame : { run with expectationChecked := true } = run := by rw [← hchecked]
      dsimp only
      rw [hsame]
      rfl
  · right
    unfold roundHttpConnection
    rw [htake]
    dsimp only
    rcases respondToExpectation_unsupported peer world config { run with expectationChecked := true } with
      ⟨run',e,heq,hending⟩ | ⟨run',heq,hending⟩
    · rw [heq]
      exact ⟨run',_,rfl,.ended { run with expectationChecked := true } h.begun hending⟩
    · rw [heq]
      exact ⟨run',_,rfl,.ended { run with expectationChecked := true } h.begun hending⟩
  · have hreceiving : Receiving peer { run with expectationChecked := true } :=
      ⟨h.begun,fun _ => ⟨head,hhead,hsupported⟩,(fun hfalse => nomatch hfalse),h.peerEndpoint⟩
    apply round_after_expectation world config application hreceiving
    · intro head' hsome
      cases hhead.symm.trans hsome
      exact hsupported
    · unfold roundHttpConnection
      rw [htake]
      rfl
  · -- the one decision is made before anything has been sent
    obtain ⟨hlog,hsent⟩ := h.unchecked hchecked
    have hwrites := sendAll_writes world.send run.wire interimResponse
    rcases hsend : sendAll world.send run.wire interimResponse with ⟨wire,e | u⟩
    · rw [hsend] at hwrites
      obtain ⟨part,hpart,hadded⟩ := hwrites.added
      right
      unfold roundHttpConnection
      rw [htake]
      simp only [respondToExpectation,hsend]
      refine ⟨_,_,rfl,.continuing run.request hasks hincomplete ?_ ?_⟩
      · simp [ConnectionRun.record,hlog]
      · rw [hsent,List.nil_append] at hadded
        dsimp only at hadded ⊢
        rw [hadded]
        exact hpart
    · rw [hsend] at hwrites
      have hwhole := hwrites.whole u rfl
      rw [hsent,List.nil_append] at hwhole
      generalize hrun1 : ({ run with
          expectationChecked := true
          wire := wire
          log := [.interim run.request] } : ConnectionRun) = run1
      have hreceiving : Receiving peer run1 := by
        subst hrun1
        refine ⟨?_,fun _ => ⟨head,hhead,hsupported⟩,(fun hfalse => nomatch hfalse),h.peerEndpoint⟩
        dsimp only at hwhole ⊢
        rw [hwhole]
        exact .continued run.request hasks hincomplete
      apply round_after_expectation world config application hreceiving
      · intro head' hsome
        subst hrun1
        cases hhead.symm.trans hsome
        exact hsupported
      · have hrespond : respondToExpectation world config { run with expectationChecked := true }
            .continueRequest = (run1,.ok true) := by
          subst hrun1
          cases u
          simp [respondToExpectation,ConnectionRun.record,hsend,hlog]
        unfold roundHttpConnection
        rw [htake]
        dsimp only
        generalize respondToExpectation world config { run with expectationChecked := true } .continueRequest =
          response at hrespond ⊢
        subst hrespond
        rfl

/-- Every run is still receiving or has ended in one of the ways there are. -/
theorem runHttpConnection_cases (world : ConnectionWorld) (config : HttpConnectionHandlerConfig)
    (application : HttpApplication) (rounds : ℕ) (h : Receiving peer run) :
    Receiving peer (runHttpConnection world config application rounds run).1 ∨
      Finished config peer (runHttpConnection world config application rounds run).1 := by
  induction rounds generalizing run with
  | zero => exact Or.inl h
  | succ rounds ih =>
    rw [runHttpConnection]
    rcases roundHttpConnection_cases world config application h with
      ⟨run',hround,hnext⟩ | ⟨run',r,hround,hfinished⟩
    · rw [hround]
      exact ih hnext
    · rw [hround]
      exact Or.inr hfinished

theorem receiving_start (config : HttpConnectionHandlerConfig) (connection : TcpConnection)
    (deadlines : RequestDeadlines) :
    Receiving connection.peerEndpoint (ConnectionRun.start config connection deadlines) :=
  ⟨.silent,(fun h => nomatch h),fun _ => ⟨rfl,rfl⟩,rfl⟩

end SpareNode.Http
