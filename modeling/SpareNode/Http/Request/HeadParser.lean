import SpareNode.Http.Request.RequestTarget

/-! # The request-head parser

`parseHttpRequestHead` and the functions below it follow the source one to one.
`Except.error` is a terminal protocol error, `none` asks for more input, and an
index loop of the source runs over the bytes from that index on.
-/
namespace SpareNode.Http

def space : Byte := char ' '
def colon : Byte := char ':'

def findRequestLineEndFrom (maximumSize : ℕ) (index : ℕ) :
    Bytes → Except HttpRequestParseError (Option ℕ)
  | [] => .ok none
  | b :: rest =>
    if b = lf then .error ⟨.invalidLineEnding,index⟩
    else if b = cr then
      match rest with
      | [] => .ok none
      | next :: _ =>
        if next ≠ lf then .error ⟨.invalidLineEnding,index⟩
        else if maximumSize < index then .error ⟨.requestLineTooLarge,maximumSize⟩
        else .ok (some index)
    else if maximumSize ≤ index then .error ⟨.requestLineTooLarge,maximumSize⟩
    else findRequestLineEndFrom maximumSize (index + 1) rest

def findRequestLineEnd (input : Bytes) (maximumSize : ℕ) :
    Except HttpRequestParseError (Option ℕ) :=
  findRequestLineEndFrom maximumSize 0 input

def findHeaderLineEndFrom (headerStart maximumHeaderSize : ℕ) (index : ℕ) :
    Bytes → Except HttpRequestParseError (Option ℕ)
  | [] => .ok none
  | b :: rest =>
    if maximumHeaderSize ≤ index - headerStart then
      .error ⟨.headersTooLarge,headerStart + maximumHeaderSize⟩
    else if b = lf then .error ⟨.invalidLineEnding,index⟩
    else if b ≠ cr then findHeaderLineEndFrom headerStart maximumHeaderSize (index + 1) rest
    else
      match rest with
      | [] => .ok none
      | next :: _ =>
        if next ≠ lf then .error ⟨.invalidLineEnding,index⟩
        else if maximumHeaderSize < index + 2 - headerStart then
          .error ⟨.headersTooLarge,headerStart + maximumHeaderSize⟩
        else .ok (some index)

def findHeaderLineEnd (input : Bytes) (lineStart headerStart maximumHeaderSize : ℕ) :
    Except HttpRequestParseError (Option ℕ) :=
  findHeaderLineEndFrom headerStart maximumHeaderSize lineStart (input.drop lineStart)

def parseMethod (method : Bytes) (offset : ℕ) : Except HttpRequestParseError HttpMethod :=
  if method = [] then .error ⟨.malformedRequestLine,offset⟩
  else if method.all isHttpTokenCharacter = false then .error ⟨.invalidMethod,offset⟩
  else if method = ascii "GET" then .ok .get
  else if method = ascii "HEAD" then .ok .head
  else if method = ascii "POST" then .ok .post
  else if method = ascii "PUT" then .ok .put
  else if method = ascii "DELETE" then .ok .deleteMethod
  else if method = ascii "OPTIONS" then .ok .options
  else .error ⟨.unsupportedMethod,offset⟩

def parseContentLength (value : Bytes) (offset : ℕ) : Except HttpRequestParseError ℕ :=
  if value = [] then .error ⟨.invalidContentLength,offset⟩
  else
    match fromChars 10 sizeMax value with
    | some (length,[]) => .ok length
    | _ => .error ⟨.invalidContentLength,offset⟩

/-- `parse_request_line`; the out parameter is the second component. -/
def parseRequestLine (line : Bytes) :
    Except HttpRequestParseError (HttpMethod × ParsedRequestTarget) :=
  match find space line with
  | none => .error ⟨.malformedRequestLine,0⟩
  | some firstSpace =>
    match findFrom space line (firstSpace + 1) with
    | none => .error ⟨.malformedRequestLine,firstSpace + 1⟩
    | some secondSpace =>
      if (findFrom space line (secondSpace + 1)).isSome then
        .error ⟨.malformedRequestLine,firstSpace + 1⟩
      else do
        let method ← parseMethod (line.take firstSpace) 0
        let target ← parseRequestTarget
          (substr line (firstSpace + 1) (secondSpace - firstSpace - 1)) method (firstSpace + 1)
        validateRequestVersion (line.drop (secondSpace + 1)) (secondSpace + 1)
        return (method,target)

/-- `ParsedHeaderField`. -/
structure ParsedHeaderField where
  field : HttpHeaderView
  lineStart : ℕ
  valueStart : ℕ
  deriving DecidableEq, Repr

def parseHeaderField (line : Bytes) (lineStart : ℕ) :
    Except HttpRequestParseError ParsedHeaderField :=
  if line.head?.any isOptionalWhitespace then .error ⟨.foldedHeader,lineStart⟩
  else
    match find colon line with
    | none => .error ⟨.malformedHeader,lineStart⟩
    | some at_ =>
      let name := line.take at_
      let untrimmed := line.drop (at_ + 1)
      let value := trimOptionalWhitespace untrimmed
      if at_ = 0 then .error ⟨.malformedHeader,lineStart⟩
      else if name.all isHttpTokenCharacter = false then .error ⟨.malformedHeader,lineStart⟩
      else if value.all isHttpFieldValueByte = false then
        .error ⟨.malformedHeader,lineStart + at_ + 1⟩
      else
        -- a value of whitespace only starts behind all of it
        let leading := (untrimmed.takeWhile isOptionalWhitespace).length
        .ok ⟨⟨name,value⟩,lineStart,lineStart + at_ + 1 + leading⟩

/-- `HeaderParseState`. -/
structure HeaderParseState where
  headers : List HttpHeaderView := []
  bodySize : Option ℕ := none
  hostSeen : Bool := false
  transferEncodingSeen : Bool := false
  transferEncoding : Bytes := []
  transferEncodingOffset : ℕ := 0
  deriving DecidableEq, Repr

def isNamed (name : String) (field : HttpHeaderView) : Bool :=
  asciiCaseInsensitiveEqual field.name (ascii name)

def applyHeaderField (parsed : ParsedHeaderField) (limits : HttpRequestParserLimits)
    (state : HeaderParseState) : Except HttpRequestParseError HeaderParseState :=
  let field := parsed.field
  let keep (s : HeaderParseState) : HeaderParseState := { s with headers := s.headers ++ [field] }
  if isNamed "Host" field then
    if state.hostSeen then .error ⟨.duplicateHost,parsed.lineStart⟩
    else if field.value = [] then .error ⟨.missingHost,parsed.valueStart⟩
    else if isValidHostAuthority field.value = false then .error ⟨.invalidHost,parsed.valueStart⟩
    else .ok (keep { state with hostSeen := true })
  else if isNamed "Content-Length" field then
    if state.bodySize.isSome then .error ⟨.duplicateContentLength,parsed.lineStart⟩
    else
      match parseContentLength field.value parsed.valueStart with
      | .error e => .error e
      | .ok length =>
        if limits.maxBodyBytes < length then .error ⟨.bodyTooLarge,parsed.valueStart⟩
        else .ok (keep { state with bodySize := some length })
  else if isNamed "Transfer-Encoding" field then
    if state.transferEncodingSeen then .error ⟨.invalidTransferEncoding,parsed.lineStart⟩
    else .ok (keep { state with
      transferEncodingSeen := true
      transferEncoding := field.value
      transferEncodingOffset := parsed.valueStart })
  else .ok (keep state)

def validateFraming (state : HeaderParseState) : Except HttpRequestParseError Unit :=
  if state.transferEncodingSeen = false then .ok ()
  else if state.bodySize.isSome then
    .error ⟨.conflictingMessageLength,state.transferEncodingOffset⟩
  else if asciiCaseInsensitiveEqual state.transferEncoding (ascii "chunked") then .ok ()
  else if state.transferEncoding ≠ [] ∧ state.transferEncoding.all isHttpTokenCharacter = true then
    .error ⟨.unsupportedTransferEncoding,state.transferEncodingOffset⟩
  else .error ⟨.invalidTransferEncoding,state.transferEncodingOffset⟩

/-- `ParsedHeaderSection`. -/
structure ParsedHeaderSection where
  headers : List HttpHeaderView
  bodyStart : ℕ
  bodySize : ℕ
  chunked : Bool
  deriving DecidableEq, Repr

/-- The empty line: Host and framing are decided over all fields. -/
def finishHeaderSection (headerStart lineEnd : ℕ) (state : HeaderParseState) :
    Except HttpRequestParseError ParsedHeaderSection := do
  if state.hostSeen = false then throw ⟨.missingHost,headerStart⟩
  validateFraming state
  return ⟨state.headers,lineEnd + 2,state.bodySize.getD 0,state.transferEncodingSeen⟩

def parseHeaderLine (line : Bytes) (lineStart : ℕ) (limits : HttpRequestParserLimits)
    (state : HeaderParseState) : Except HttpRequestParseError HeaderParseState := do
  if limits.maxHeaderCount ≤ state.headers.length then throw ⟨.tooManyHeaders,lineStart⟩
  let field ← parseHeaderField line lineStart
  applyHeaderField field limits state

/-- A header line end lies behind its start, with its CRLF inside the input. -/
theorem findHeaderLineEndFrom_bounds {headerStart maximum index stop : ℕ} {rest : Bytes}
    (h : findHeaderLineEndFrom headerStart maximum index rest = .ok (some stop)) :
    index ≤ stop ∧ stop + 2 ≤ index + rest.length := by
  fun_induction findHeaderLineEndFrom headerStart maximum index rest <;> grind

/-- The loop of `parse_header_section` from one line start on. -/
def parseHeaderLines (input : Bytes) (headerStart : ℕ) (limits : HttpRequestParserLimits)
    (lineStart : ℕ) (state : HeaderParseState) :
    Except HttpRequestParseError (Option ParsedHeaderSection) :=
  match _hend : findHeaderLineEnd input lineStart headerStart limits.maxHeaderBytes with
  | .error e => .error e
  | .ok none => .ok none
  | .ok (some lineEnd) =>
    if lineEnd = lineStart then (finishHeaderSection headerStart lineEnd state).map some
    else
      match parseHeaderLine (substr input lineStart (lineEnd - lineStart)) lineStart limits
          state with
      | .error e => .error e
      | .ok state => parseHeaderLines input headerStart limits (lineEnd + 2) state
termination_by input.length - lineStart
decreasing_by
  have := findHeaderLineEndFrom_bounds _hend
  simp only [List.length_drop] at this
  omega

def parseHeaderSection (input : Bytes) (headerStart : ℕ) (limits : HttpRequestParserLimits) :
    Except HttpRequestParseError (Option ParsedHeaderSection) :=
  parseHeaderLines input headerStart limits headerStart {}

/-- An absolute-form authority overrides Host for all downstream consumers. -/
def overrideHost (authority : Bytes) (fields : List HttpHeaderView) : List HttpHeaderView :=
  if authority = [] then fields
  else fields.map (fun field => if isNamed "Host" field then { field with value := authority } else field)

def parseHttpRequestHead (input : Bytes) (limits : HttpRequestParserLimits) :
    Except HttpRequestParseError (Option HttpRequestHead) :=
  if input = [] then .ok none
  else
    match findRequestLineEnd input limits.maxRequestLineBytes with
    | .error e => .error e
    | .ok none => .ok none
    | .ok (some requestLineEnd) =>
      match parseRequestLine (input.take requestLineEnd) with
      | .error e => .error e
      | .ok (method,target) =>
        match parseHeaderSection input (requestLineEnd + 2) limits with
        | .error e => .error e
        | .ok none => .ok none
        | .ok (some section_) => .ok (some
            ⟨method,target.routingTarget,overrideHost target.authority section_.headers,
              section_.bodyStart,section_.bodySize,section_.chunked⟩)

example : parseHttpRequestHead (ascii "GET /a?b HTTP/1.1\r\nHost: h\r\nX:  1 \r\n\r\nbody") {} =
    .ok (some ⟨.get,ascii "/a?b",[⟨ascii "Host",ascii "h"⟩,⟨ascii "X",ascii "1"⟩],38,0,false⟩) := by
  decide +kernel
example : parseHttpRequestHead (ascii "GET / HTTP/1.1\r\nHost: h\r\n\r") {} = .ok none := by
  decide +kernel

end SpareNode.Http
