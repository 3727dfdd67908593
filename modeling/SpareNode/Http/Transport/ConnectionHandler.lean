import SpareNode.Http.Request.HeadBound
import SpareNode.Http.Transport.BufferedRequest
import SpareNode.Http.Transport.RequestDeadlines
import SpareNode.Http.Transport.ResponseWriter
import SpareNode.Http.Transport.TransportPolicy

/-! # The connection handler

`run_http_connection`: receive until one request is complete, answer its expectation on the
way, hand the request to the application and send one response. What the handler meets is a
`ConnectionWorld` that answers by running number. A run keeps a log of what it has done to the
outside and of what ended it; the log is not part of the source.
-/
namespace SpareNode.Http
open Concurrency Network Storage

inductive HttpRequestReadPhase where
  | headers | body
deriving DecidableEq, Repr

structure HttpConnectionHandlerConfig where
  parserLimits : HttpRequestParserLimits := {}
  bodyStoragePolicySelector : Option (HttpRequestHead → RequestBodyStoragePolicy) := none
  receiveChunkBytes : ℕ := 16 * 1024
  timeouts : HttpRequestTimeouts := {}
  deadlineProvider : Option (HttpRequestReadPhase → ℤ → Option ℤ) := none
  responseTimeout : ℤ := 5 * 60 * 1000
  maxDrainBytes : ℕ := 64 * 1024
  drainTimeout : ℤ := 100
  transportPolicy : HttpTransportPolicy := {}

inductive HttpApplicationError where
  | requestFailed (detail : ℤ)
deriving DecidableEq, Repr

inductive ApplicationOutcome where
  | responded (response : HttpResponse)
  | failed (error : HttpApplicationError)
  | threw

abbrev HttpApplication := HttpRequestView → HttpRequestTransportContext → ApplicationOutcome

/-- The answers that a connection's handler gets from outside. -/
structure ConnectionWorld where
  moment : ℕ → Moment
  receive : ℕ → Except NetworkError Bytes
  send : Socket
  shutdownSend : Except NetworkError Unit
  storage : StorageEnvironment
  storageMoment : ℕ → Moment
  date : Bytes

/-- `HttpConnectionFailureCode`, by its numeric value. -/
inductive HttpConnectionFailureCode where
  | unknown | invalidConfig | resourceFailure | responseFailure | internalException
deriving DecidableEq, Repr

def errorDetail : HttpConnectionFailureCode → ℤ
  | .unknown => 0
  | .invalidConfig => 1
  | .resourceFailure => 2
  | .responseFailure => 3
  | .internalException => 4

def responseWriterErrorDetailBase : ℤ := 100

def HttpResponseWriteErrorCode.value : HttpResponseWriteErrorCode → ℤ
  | .networkFailure => 0
  | .connectionClosed => 1
  | .bodySourceFailure => 2
  | .bodySourceException => 3
  | .bodySourceContractViolation => 4
  | .bodyEndedEarly => 5
  | .resourceAllocationFailed => 6

def maximumMetadataBytes (limits : HttpRequestParserLimits) : ℕ := maximumHttpRequestHeadBytes limits

def parseErrorStatus : HttpRequestParseErrorCode → HttpStatusCode
  | .requestLineTooLarge => .uriTooLong
  | .headersTooLarge | .tooManyHeaders => .requestHeaderFieldsTooLarge
  | .bodyTooLarge | .chunkMetadataTooLarge | .trailersTooLarge => .contentTooLarge
  | .unsupportedHttpVersion => .httpVersionNotSupported
  | .unsupportedMethod | .unsupportedTransferEncoding => .notImplemented
  | _ => .badRequest

def BufferedRequestError.cancelled : BufferedRequestError → Bool
  | .ingestion e => e.code = .cancelled
  | .parse _ => false

def BufferedRequestError.timedOut : BufferedRequestError → Bool
  | .ingestion e => e.code = .deadlineExceeded
  | .parse _ => false

def requestErrorStatus : BufferedRequestError → HttpStatusCode
  | .parse e => parseErrorStatus e.code
  | .ingestion e =>
    match e.code with
    | .bodyTooLarge => .contentTooLarge
    | .framingFailure => parseErrorStatus e.framingError.code
    | _ => .internalServerError

def transportErrorStatus (code : HttpTransportErrorCode) : HttpStatusCode :=
  if code = .insecureForwardedScheme then .forbidden else .badRequest

def mapWriteError (error : HttpResponseWriteError) : NetworkError :=
  match error.networkError with
  | some e => e
  | none => ⟨.send,.state,responseWriterErrorDetailBase + error.code.value⟩

inductive RequestExpectation where
  | none | continueRequest | unsupported
deriving DecidableEq, Repr

/-- The loop of `supported_expectations` over the members of a list. -/
def supportedExpectations (value : Bytes) : Bool :=
  match _hcomma : find (char ',') value with
  | none =>
    let item := trimOptionalWhitespace value
    item.isEmpty || asciiCaseInsensitiveEqual item (ascii "100-continue")
  | some comma =>
    let item := trimOptionalWhitespace (value.take comma)
    (item.isEmpty || asciiCaseInsensitiveEqual item (ascii "100-continue")) &&
      supportedExpectations (value.drop (comma + 1))
termination_by value.length
decreasing_by
  have := find_lt_length _hcomma
  simp only [List.length_drop]
  omega

def asksSomething (value : Bytes) : Bool :=
  value.any (fun b => !(b = char ' ' || b = char ',' || b = 9))

/-- `BufferedRequest::take_expectation`; the flag says that the decision was made before. -/
def takeExpectation (request : BufferedRequest) (expectationChecked : Bool) : RequestExpectation × Bool :=
  match request.head with
  | none => (.none,expectationChecked)
  | some head =>
    if expectationChecked then (.none,true)
    else
      let values := headerValues head.fields "Expect"
      if values.any (fun value => !supportedExpectations value) then (.unsupported,true)
      else if values.any asksSomething && !request.complete then (.continueRequest,true)
      else (.none,true)

def interimResponse : Bytes := ascii "HTTP/1.1 100 Continue\r\n\r\n"

/-- What the handler has done to the outside, and what has ended it. -/
inductive Effect where
  | interim (request : BufferedRequest)
  | unsupportedExpectation
  | receiveFailed (error : NetworkError)
  | requestFailed (error : BufferedRequestError)
  | transportRejected (code : HttpTransportErrorCode)
  | called (request : BufferedRequest) (view : HttpRequestView) (transport : HttpRequestTransportContext)
  | final (response : HttpResponse) (requestMethod : HttpMethod)

structure ConnectionRun where
  connection : TcpConnection
  deadlines : RequestDeadlines
  request : BufferedRequest
  expectationChecked : Bool := false
  wire : Wire := {}
  looks : ℕ := 0
  receives : ℕ := 0
  log : List Effect := []

namespace ConnectionRun

/-- One look at the stop token and the clock has been taken. -/
def look (run : ConnectionRun) : ConnectionRun := { run with looks := run.looks + 1 }

def record (run : ConnectionRun) (effect : Effect) : ConnectionRun := { run with log := run.log ++ [effect] }

end ConnectionRun

variable (world : ConnectionWorld) (config : HttpConnectionHandlerConfig)

/-- `TcpConnection::receive_with_options` on the connection of a run. -/
def receiveWithOptions (run : ConnectionRun) (capacity : ℕ) (deadline : Option ℤ) :
    ConnectionRun × Except NetworkError Bytes :=
  let result := run.connection.receiveWithOptions capacity (world.moment run.looks) deadline
    (world.receive run.receives)
  ({ run with
      connection := result.1
      looks := run.looks + 1
      receives := run.receives + 1 },result.2)

/-- The loop of `drain_after_response`. -/
def drainLoop (deadline : ℤ) (run : ConnectionRun) (remaining : ℕ) :
    ConnectionRun × Except NetworkError Unit :=
  if _hdone : remaining = 0 then (run,.ok ())
  else if (world.moment run.looks).stopRequested then (run.look,.error ⟨.receive,.cancellation,0⟩)
  else if deadline ≤ (world.moment run.look.looks).now then (run.look.look,.ok ())
  else
    match receiveWithOptions world run.look.look (min remaining 4096) (some deadline) with
    | (run,.error e) => if e.domain = .timeout then (run,.ok ()) else (run,.error e)
    | (run,.ok bytes) =>
      if _hend : bytes.length = 0 then (run,.ok ()) else drainLoop deadline run (remaining - bytes.length)
termination_by remaining
decreasing_by omega

def drainAfterResponse (run : ConnectionRun) : ConnectionRun × Except NetworkError Unit :=
  if (world.moment run.looks).stopRequested then (run.look,.error ⟨.receive,.cancellation,0⟩)
  else
    match world.shutdownSend with
    | .error e => (run.look,.error e)
    | .ok () =>
      drainLoop world ((world.moment run.look.looks).now + milliseconds config.drainTimeout)
        run.look.look config.maxDrainBytes

/-- The end of `send_error_response` and of `dispatch_and_respond`: one final response. -/
def sendFinalResponse (run : ConnectionRun) (response : HttpResponse) (requestMethod : HttpMethod) :
    ConnectionRun × Except NetworkError Unit :=
  match writeHttpResponse world.send run.wire response requestMethod with
  | (wire,.error e) => ({ run.record (.final response requestMethod) with wire := wire },.error (mapWriteError e))
  | (wire,.ok ()) =>
    drainAfterResponse world config { run.record (.final response requestMethod) with wire := wire }

def makeErrorResponse (date : Bytes) (status : HttpStatusCode) : Except NetworkError HttpResponse :=
  match HttpResponse.create date status (httpReasonPhrase status) [] [] with
  | .error _ => .error ⟨.send,.state,errorDetail .responseFailure⟩
  | .ok response => .ok response

def sendErrorResponse (run : ConnectionRun) (status : HttpStatusCode) :
    ConnectionRun × Except NetworkError Unit :=
  match makeErrorResponse world.date status with
  | .error e => (run,.error e)
  | .ok response => sendFinalResponse world config run response .get

/-- `respond_to_expectation`: true goes on with the request. -/
def respondToExpectation (run : ConnectionRun) :
    RequestExpectation → ConnectionRun × Except NetworkError Bool
  | .none => (run,.ok true)
  | .unsupported =>
    match sendErrorResponse world config (run.record .unsupportedExpectation) .expectationFailed with
    | (run,.error e) => (run,.error e)
    | (run,.ok ()) => (run,.ok false)
  | .continueRequest =>
    match sendAll world.send run.wire interimResponse with
    | (wire,.ok ()) => ({ run.record (.interim run.request) with wire := wire },.ok true)
    | (wire,.error e) =>
      let error : NetworkError := match e.networkError with
        | some e => e
        | none => ⟨.send,.state,errorDetail .responseFailure⟩
      ({ run.record (.interim run.request) with wire := wire },.error error)

def boundedReadDeadline (run : ConnectionRun) (phase : HttpRequestReadPhase) : ℤ :=
  let bounded := run.deadlines.next (phase = .body)
  match config.deadlineProvider.bind (fun provider => provider phase run.connection.acceptedAt) with
  | some deadline => min deadline bounded
  | none => bounded

def storageUnder (deadline : ℤ) : StorageEnvironment :=
  { world.storage with
    interruption := fun n => interruptionStatus (world.storageMoment n) (some deadline) }

def respondToRequestFailure (run : ConnectionRun) (error : BufferedRequestError) :
    ConnectionRun × Except NetworkError Unit :=
  let run := run.record (.requestFailed error)
  if error.cancelled then (run,.error ⟨.receive,.cancellation,0⟩)
  else if error.timedOut then (run,.error ⟨.receive,.timeout,0⟩)
  else sendErrorResponse world config run (requestErrorStatus error)

variable (application : HttpApplication)

/-- `dispatch_and_respond`; an exception ends the handler without a response. -/
def dispatchAndRespond (run : ConnectionRun) (view : HttpRequestView)
    (transport : HttpRequestTransportContext) : ConnectionRun × Except NetworkError Unit :=
  let run := run.record (.called run.request view transport)
  match application view transport with
  | .threw => (run,.error ⟨.receive,.state,errorDetail .internalException⟩)
  | .failed _ => sendErrorResponse world config run .internalServerError
  | .responded response =>
    if response.statusCode.value < HttpStatusCode.ok.value then
      sendErrorResponse world config run .internalServerError
    else sendFinalResponse world config run response view.method

/-- The part of the loop behind a complete request. -/
def answerRequest (run : ConnectionRun) (view : HttpRequestView) : ConnectionRun × Except NetworkError Unit :=
  match resolveHttpTransport config.transportPolicy run.connection.peerEndpoint view.fields with
  | .error code =>
    sendErrorResponse world config (run.record (.transportRejected code)) (transportErrorStatus code)
  | .ok transport => dispatchAndRespond world config application run view transport

/-- The end of the stream, in the middle of a request or before it. -/
def endOfStream (run : ConnectionRun) (deadline : ℤ) : ConnectionRun × Except NetworkError Unit :=
  if run.request.metadata.isEmpty then (run,.ok ())
  else
    match run.request.finish (storageUnder world deadline) with
    | (request,.error e) => respondToRequestFailure world config { run with request := request } e
    | (request,.ok ()) => sendErrorResponse world config { run with request := request } .badRequest

def recordReceive (run : ConnectionRun) : ConnectionRun :=
  { run.look with deadlines := run.deadlines.recordProgress (world.moment run.looks).now }

/-- The bytes of one receive, parsed and stored; no result goes round again. -/
def feedReceived (run : ConnectionRun) (bytes : Bytes) : ConnectionRun × Option (Except NetworkError Unit) :=
  match run.request.feed (storageUnder world (boundedReadDeadline config run .body)) bytes with
  | (request,.error e) =>
    let result := respondToRequestFailure world config { run with request := request } e
    (result.1,some result.2)
  | (request,.ok ()) => ({ run with request := request },none)

def readPhase (run : ConnectionRun) : HttpRequestReadPhase :=
  if run.request.head.isSome then .body else .headers

def receiveCapacity : ℕ := min (maximumMetadataBytes config.parserLimits) config.receiveChunkBytes

def receiveMore (run : ConnectionRun) : ConnectionRun × Option (Except NetworkError Unit) :=
  let deadline := boundedReadDeadline config run (readPhase run)
  match receiveWithOptions world run (receiveCapacity config) (some deadline) with
  | (run,.error e) => (run.record (.receiveFailed e),some (.error e))
  | (run,.ok bytes) =>
    if bytes.isEmpty then
      let result := endOfStream world config run deadline
      (result.1,some result.2)
    else feedReceived world config (recordReceive world run) bytes

def roundHttpConnection (run : ConnectionRun) : ConnectionRun × Option (Except NetworkError Unit) :=
  let expectation := takeExpectation run.request run.expectationChecked
  match respondToExpectation world config { run with expectationChecked := expectation.2 } expectation.1 with
  | (run,.error e) => (run,some (.error e))
  | (run,.ok false) => (run,some (.ok ()))
  | (run,.ok true) =>
    match run.request.request with
    | some view =>
      let result := answerRequest world config application run view
      (result.1,some result.2)
    | none => receiveMore world config run

/-- `run_http_connection` for some rounds; no result stands for a handler still at work. -/
def runHttpConnection : ℕ → ConnectionRun → ConnectionRun × Option (Except NetworkError Unit)
  | 0,run => (run,none)
  | rounds + 1,run =>
    match roundHttpConnection world config application run with
    | (run,some result) => (run,some result)
    | (run,none) => runHttpConnection rounds run

def ConnectionRun.start (connection : TcpConnection) (deadlines : RequestDeadlines) : ConnectionRun where
  connection := connection
  deadlines := deadlines
  request := { limits := config.parserLimits, storagePolicySelector := config.bodyStoragePolicySelector }

/-- `handle_http_connection`; no application stands for an empty callable. -/
def handleHttpConnection (application : Option HttpApplication) (connection : TcpConnection)
    (rounds : ℕ) : ConnectionRun × Option (Except NetworkError Unit) :=
  match RequestDeadlines.create config.timeouts connection.acceptedAt, application with
  | some deadlines, some application =>
    let run := ConnectionRun.start config connection (deadlines.recordProgress connection.lastReceiveProgress)
    if maximumMetadataBytes config.parserLimits = 0 ∨ config.receiveChunkBytes = 0 ∨
        config.responseTimeout ≤ 0 ∨ maximumConfigTimeout < config.responseTimeout ∨
        config.maxDrainBytes = 0 ∨ config.drainTimeout ≤ 0 ∨ maximumConfigTimeout < config.drainTimeout then
      (run,some (.error ⟨.receive,.validation,errorDetail .invalidConfig⟩))
    else if !httpTransportAllowsPeer config.transportPolicy connection.peerEndpoint then (run,some (.ok ()))
    else runHttpConnection world config application rounds run
  | _, _ =>
    (ConnectionRun.start config connection ⟨config.timeouts,connection.acceptedAt,connection.acceptedAt⟩,
      some (.error ⟨.receive,.validation,errorDetail .invalidConfig⟩))

end SpareNode.Http
