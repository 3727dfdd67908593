import SpareNode.Foundation.Bytes

/-! # Request data types

The records and enumerations shared by the request parser, the body decoder and
the transport. A borrowed view of the source is the byte string it denotes, so
the owner of synthetic target bytes has no counterpart here.
-/
namespace SpareNode.Http

/-- `HttpMethod`. -/
inductive HttpMethod
  | get
  | head
  | post
  | put
  | deleteMethod
  | options
  deriving DecidableEq, Repr

/-- The canonical spelling, `to_string(HttpMethod)`. -/
def HttpMethod.spelling : HttpMethod → Bytes
  | .get => ascii "GET"
  | .head => ascii "HEAD"
  | .post => ascii "POST"
  | .put => ascii "PUT"
  | .deleteMethod => ascii "DELETE"
  | .options => ascii "OPTIONS"

/-- `HttpHeaderView`: case-preserving name and trimmed value. -/
structure HttpHeaderView where
  name : Bytes
  value : Bytes
  deriving DecidableEq, Repr

/-- `HttpRequestParserLimits` with the defaults of the source. -/
structure HttpRequestParserLimits where
  maxRequestLineBytes : ℕ := 8192
  maxHeaderBytes : ℕ := 32768
  maxHeaderCount : ℕ := 100
  maxBodyBytes : ℕ := 1024 * 1024
  maxChunkLineBytes : ℕ := 1024
  maxChunkMetadataBytes : ℕ := 65536
  maxTrailerBytes : ℕ := 8192
  maxTrailerCount : ℕ := 32
  deriving DecidableEq, Repr

/-- `HttpRequestParseErrorCode`. -/
inductive HttpRequestParseErrorCode
  | requestLineTooLarge
  | headersTooLarge
  | tooManyHeaders
  | bodyTooLarge
  | invalidLineEnding
  | malformedRequestLine
  | invalidMethod
  | unsupportedMethod
  | invalidRequestTarget
  | unsupportedHttpVersion
  | malformedHeader
  | foldedHeader
  | missingHost
  | duplicateHost
  | invalidHost
  | invalidContentLength
  | duplicateContentLength
  | unsupportedTransferEncoding
  | invalidTransferEncoding
  | conflictingMessageLength
  | malformedChunk
  | chunkMetadataTooLarge
  | invalidTrailer
  | trailersTooLarge
  | incompleteBody
  | malformedHttpVersion
  deriving DecidableEq, Repr

/-- `HttpRequestParseError`. -/
structure HttpRequestParseError where
  code : HttpRequestParseErrorCode
  byteOffset : ℕ
  deriving DecidableEq, Repr

/-- `HttpRequestHead`. -/
structure HttpRequestHead where
  method : HttpMethod
  target : Bytes
  fields : List HttpHeaderView
  consumedBytes : ℕ
  contentLength : ℕ
  chunked : Bool
  deriving DecidableEq, Repr

/-- `HttpRequestView` with its body bytes, wherever they are stored. -/
structure HttpRequestView where
  method : HttpMethod
  target : Bytes
  fields : List HttpHeaderView
  body : Bytes
  deriving DecidableEq, Repr

/-- The parts of a validated head that a request view keeps. -/
def HttpRequestHead.view (head : HttpRequestHead) (body : Bytes) : HttpRequestView :=
  ⟨head.method,head.target,head.fields,body⟩

end SpareNode.Http
