import SpareNode.Http.Request.HeadParser

/-! # Responses

Validated response values. A streaming body is a reader that answers one call after the other;
the date that a response carries is what the clock gave when it was made.
-/
namespace SpareNode.Http

/-- `HttpStatusCode`, an enumeration over its numeric value. -/
structure HttpStatusCode where
  value : ℕ
deriving DecidableEq, Repr

namespace HttpStatusCode
def ok : HttpStatusCode := ⟨200⟩
def created : HttpStatusCode := ⟨201⟩
def noContent : HttpStatusCode := ⟨204⟩
def resetContent : HttpStatusCode := ⟨205⟩
def notModified : HttpStatusCode := ⟨304⟩
def badRequest : HttpStatusCode := ⟨400⟩
def unauthorized : HttpStatusCode := ⟨401⟩
def forbidden : HttpStatusCode := ⟨403⟩
def notFound : HttpStatusCode := ⟨404⟩
def methodNotAllowed : HttpStatusCode := ⟨405⟩
def requestTimeout : HttpStatusCode := ⟨408⟩
def conflict : HttpStatusCode := ⟨409⟩
def contentTooLarge : HttpStatusCode := ⟨413⟩
def uriTooLong : HttpStatusCode := ⟨414⟩
def unsupportedMediaType : HttpStatusCode := ⟨415⟩
def expectationFailed : HttpStatusCode := ⟨417⟩
def locked : HttpStatusCode := ⟨423⟩
def tooManyRequests : HttpStatusCode := ⟨429⟩
def requestHeaderFieldsTooLarge : HttpStatusCode := ⟨431⟩
def internalServerError : HttpStatusCode := ⟨500⟩
def notImplemented : HttpStatusCode := ⟨501⟩
def serviceUnavailable : HttpStatusCode := ⟨503⟩
def httpVersionNotSupported : HttpStatusCode := ⟨505⟩
end HttpStatusCode

def reasonPhrases : List (ℕ × String) :=
  [(100,"Continue"),(101,"Switching Protocols"),(102,"Processing"),(103,"Early Hints"),(200,"OK"),
   (201,"Created"),(202,"Accepted"),(203,"Non-Authoritative Information"),(204,"No Content"),
   (205,"Reset Content"),(206,"Partial Content"),(207,"Multi-Status"),(208,"Already Reported"),
   (226,"IM Used"),(300,"Multiple Choices"),(301,"Moved Permanently"),(302,"Found"),(303,"See Other"),
   (304,"Not Modified"),(305,"Use Proxy"),(307,"Temporary Redirect"),(308,"Permanent Redirect"),
   (400,"Bad Request"),(401,"Unauthorized"),(402,"Payment Required"),(403,"Forbidden"),(404,"Not Found"),
   (405,"Method Not Allowed"),(406,"Not Acceptable"),(407,"Proxy Authentication Required"),
   (408,"Request Timeout"),(409,"Conflict"),(410,"Gone"),(411,"Length Required"),
   (412,"Precondition Failed"),(413,"Content Too Large"),(414,"URI Too Long"),
   (415,"Unsupported Media Type"),(416,"Range Not Satisfiable"),(417,"Expectation Failed"),
   (418,"I'm a Teapot"),(421,"Misdirected Request"),(422,"Unprocessable Content"),(423,"Locked"),
   (424,"Failed Dependency"),(425,"Too Early"),(426,"Upgrade Required"),(428,"Precondition Required"),
   (429,"Too Many Requests"),(431,"Request Header Fields Too Large"),(451,"Unavailable For Legal Reasons"),
   (500,"Internal Server Error"),(501,"Not Implemented"),(502,"Bad Gateway"),(503,"Service Unavailable"),
   (504,"Gateway Timeout"),(505,"HTTP Version Not Supported"),(506,"Variant Also Negotiates"),
   (507,"Insufficient Storage"),(508,"Loop Detected"),(510,"Not Extended"),
   (511,"Network Authentication Required")]

def httpReasonPhrase (status : HttpStatusCode) : Bytes :=
  ascii ((reasonPhrases.lookup status.value).getD "Unknown Status")

structure HttpResponseHeader where
  name : Bytes
  value : Bytes
deriving DecidableEq, Repr

inductive HttpBodyReadErrorDomain where
  | application | filesystem | cancellation
deriving DecidableEq, Repr

structure HttpBodyReadError where
  domain : HttpBodyReadErrorDomain
  code : ℤ
deriving DecidableEq, Repr

inductive BodyRead where
  | produced (bytes : Bytes)
  | failed (error : HttpBodyReadError)
  | threw
deriving DecidableEq, Repr

/-- The answer to the call with a running number that asks for at most some bytes. -/
abbrev HttpBodyReader := ℕ → ℕ → BodyRead

inductive HttpResponseValidationErrorCode where
  | invalidStatusCode | invalidReasonPhrase | tooManyHeaders | invalidHeaderName | invalidHeaderValue
  | managedFramingHeader | managedConnectionHeader | bodyNotAllowed | responseHeadTooLarge
  | memoryBodyTooLarge | missingBodyReader | managedDateHeader
deriving DecidableEq, Repr

def HttpResponseValidationErrorCode.value : HttpResponseValidationErrorCode → ℤ
  | .invalidStatusCode => 0
  | .invalidReasonPhrase => 1
  | .tooManyHeaders => 2
  | .invalidHeaderName => 3
  | .invalidHeaderValue => 4
  | .managedFramingHeader => 5
  | .managedConnectionHeader => 6
  | .bodyNotAllowed => 7
  | .responseHeadTooLarge => 8
  | .memoryBodyTooLarge => 9
  | .missingBodyReader => 10
  | .managedDateHeader => 11

structure HttpResponseValidationError where
  code : HttpResponseValidationErrorCode
  headerIndex : ℕ
deriving DecidableEq, Repr

structure HttpResponse where
  statusCode : HttpStatusCode
  reasonPhrase : Bytes
  headers : List HttpResponseHeader
  memoryBody : Bytes
  contentLength : ℕ
  dateValue : Bytes
  bodyReader : Option HttpBodyReader

def minimumResponseStatusCode : ℕ := 100
def maximumResponseStatusCode : ℕ := 599
def maximumHeaderCount : ℕ := 100
def maximumHeadBytes : ℕ := 32768
def maximumMemoryBodyBytes : ℕ := 1024 * 1024
def responseDateFieldBytes : ℕ := 37

def statusHasNoMessageBody (status : HttpStatusCode) : Bool :=
  (minimumResponseStatusCode ≤ status.value && status.value < HttpStatusCode.ok.value) ||
    status = .noContent || status = .resetContent || status = .notModified

def decimalDigitCount (value : ℕ) : ℕ := if value < 10 then 1 else decimalDigitCount (value / 10) + 1

/-- `std::to_string` of an unsigned number. -/
def decimalText (value : ℕ) : Bytes := ascii (toString value)

/-- `validate_header`: the serialized size of one field. -/
def validateHeader (header : HttpResponseHeader) (index remaining : ℕ) :
    Except HttpResponseValidationError ℕ :=
  let named (name : String) : Bool := asciiCaseInsensitiveEqual header.name (ascii name)
  if header.name.isEmpty || !header.name.all isHttpTokenCharacter then .error ⟨.invalidHeaderName,index⟩
  else if !header.value.all isHttpFieldValueByte then .error ⟨.invalidHeaderValue,index⟩
  else if named "Content-Length" || named "Transfer-Encoding" then .error ⟨.managedFramingHeader,index⟩
  else if named "Connection" || named "Keep-Alive" then .error ⟨.managedConnectionHeader,index⟩
  else if named "Date" then .error ⟨.managedDateHeader,index⟩
  else if remaining < header.name.length ∨ remaining - header.name.length < header.value.length ∨
      remaining - header.name.length - header.value.length < 4 then .error ⟨.responseHeadTooLarge,index⟩
  else .ok (header.name.length + header.value.length + 4)

/-- The loop of `validate_response` over the fields. -/
def validateHeaders : List HttpResponseHeader → (index headSize : ℕ) → Except HttpResponseValidationError Unit
  | [],_,_ => .ok ()
  | header :: rest,index,headSize =>
    match validateHeader header index (maximumHeadBytes - headSize) with
    | .error e => .error e
    | .ok size => validateHeaders rest (index + 1) (headSize + size)

/-- The size of a head without the application's fields. -/
def fixedHeadSize (status : HttpStatusCode) (reasonPhrase : Bytes) (contentLength : ℕ) : ℕ :=
  let framingBytes := if statusHasNoMessageBody status then 2 else 18 + decimalDigitCount contentLength + 2
  let connectionBytes :=
    if HttpStatusCode.ok.value ≤ status.value then (ascii "Connection: close\r\n").length + responseDateFieldBytes
    else 0
  -- 205 carries Content-Length: 0 even though its body is forbidden
  let resetContentBytes := if status = .resetContent then 18 + 1 else 0
  15 + reasonPhrase.length + framingBytes + connectionBytes + resetContentBytes

def validateResponse (status : HttpStatusCode) (reasonPhrase : Bytes) (headers : List HttpResponseHeader)
    (contentLength : ℕ) : Except HttpResponseValidationError Unit :=
  if status.value < minimumResponseStatusCode || maximumResponseStatusCode < status.value then
    .error ⟨.invalidStatusCode,0⟩
  else if !reasonPhrase.all isHttpFieldValueByte then .error ⟨.invalidReasonPhrase,0⟩
  else if statusHasNoMessageBody status && contentLength ≠ 0 then .error ⟨.bodyNotAllowed,0⟩
  else if maximumHeaderCount < headers.length then .error ⟨.tooManyHeaders,0⟩
  else if maximumHeadBytes < fixedHeadSize status reasonPhrase contentLength then
    .error ⟨.responseHeadTooLarge,0⟩
  else validateHeaders headers 0 (fixedHeadSize status reasonPhrase contentLength)

/-- The date of a final response; interim ones have none. -/
def originationDate (status : HttpStatusCode) (date : Bytes) : Bytes :=
  if HttpStatusCode.ok.value ≤ status.value then date else []

namespace HttpResponse

/-- `HttpResponse::create`; `date` is the formatted clock. -/
def create (date : Bytes) (status : HttpStatusCode) (reasonPhrase : Bytes)
    (headers : List HttpResponseHeader) (body : Bytes) : Except HttpResponseValidationError HttpResponse :=
  if maximumMemoryBodyBytes < body.length then .error ⟨.memoryBodyTooLarge,0⟩
  else
    match validateResponse status reasonPhrase headers body.length with
    | .error e => .error e
    | .ok () => .ok
        { statusCode := status
          reasonPhrase := reasonPhrase
          headers := headers
          memoryBody := body
          contentLength := body.length
          dateValue := originationDate status date
          bodyReader := none }

def createStreaming (date : Bytes) (status : HttpStatusCode) (reasonPhrase : Bytes)
    (headers : List HttpResponseHeader) (contentLength : ℕ) (bodyReader : Option HttpBodyReader) :
    Except HttpResponseValidationError HttpResponse :=
  match bodyReader with
  | none => .error ⟨.missingBodyReader,0⟩
  | some reader =>
    if statusHasNoMessageBody status then .error ⟨.bodyNotAllowed,0⟩
    else
      match validateResponse status reasonPhrase headers contentLength with
      | .error e => .error e
      | .ok () => .ok
          { statusCode := status
            reasonPhrase := reasonPhrase
            headers := headers
            memoryBody := []
            contentLength := contentLength
            dateValue := originationDate status date
            bodyReader := some reader }

end HttpResponse
end SpareNode.Http
