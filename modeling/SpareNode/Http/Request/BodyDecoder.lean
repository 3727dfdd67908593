import SpareNode.Http.Ascii
import SpareNode.Http.Request.Types

/-! # The incremental body decoder

`HttpBodyDecoder` decodes fixed-length and chunked bodies without owning storage.
A member function that can fail returns the object it left behind together with
the error, because fields changed before a failure stay changed. The output span
is its capacity and the bytes written so far; `size_t` values never exceed
`sizeMax`, so the tests for equality with a bound are written as `≤`.
-/
namespace SpareNode.Http

def skipWhitespace (text : Bytes) : Bytes := text.dropWhile isOptionalWhitespace

/-- `take_token`: the text behind a nonempty token. -/
def takeToken (text : Bytes) : Option Bytes :=
  if text.head?.any isHttpTokenCharacter then some (text.dropWhile isHttpTokenCharacter) else none

def quote : Byte := char '"'
def backslash : Byte := char '\\'

def takeQuoted : Bytes → Option Bytes
  | [] => none
  | b :: rest =>
    if b = quote then some rest
    else if b = backslash then
      match rest with
      | [] => none
      | escaped :: rest => if isHttpFieldValueByte escaped then takeQuoted rest else none
    else if isHttpFieldValueByte b then takeQuoted rest
    else none

/-- The optional value of one extension. Whitespace without a following `=` belongs
to the next separator. -/
def takeExtensionValue (text : Bytes) : Option Bytes :=
  match skipWhitespace text with
  | [] => some text
  | separator :: afterName =>
    if separator = char '=' then
      match skipWhitespace afterName with
      | [] => none
      | first :: value => if first = quote then takeQuoted value else takeToken (first :: value)
    else some text

/-- One round of the loop of `valid_extensions`. -/
def takeExtension (text : Bytes) : Option Bytes :=
  match skipWhitespace text with
  | [] => none
  | separator :: rest =>
    if separator = char ';' then
      match takeToken (skipWhitespace rest) with
      | none => none
      | some text => takeExtensionValue text
    else none

theorem length_skipWhitespace_le (text : Bytes) : (skipWhitespace text).length ≤ text.length :=
  (List.dropWhile_sublist _).length_le

theorem takeToken_length_le {text rest : Bytes} (h : takeToken text = some rest) :
    rest.length ≤ text.length := by
  unfold takeToken at h
  split at h
  · cases h
    exact (List.dropWhile_sublist _).length_le
  · simp at h

theorem takeQuoted_length_le {text rest : Bytes} (h : takeQuoted text = some rest) :
    rest.length ≤ text.length := by
  fun_induction takeQuoted text <;> grind

theorem takeExtensionValue_length_le {text rest : Bytes} (h : takeExtensionValue text = some rest) :
    rest.length ≤ text.length := by
  unfold takeExtensionValue at h
  have hs := length_skipWhitespace_le text
  split at h
  · cases h
    exact le_rfl
  · next separator afterName he =>
    split at h
    · have hs' := length_skipWhitespace_le afterName
      rw [he,List.length_cons] at hs
      split at h
      · simp at h
      · next first value hv =>
        rw [hv,List.length_cons] at hs'
        split at h
        · have := takeQuoted_length_le h
          omega
        · have := takeToken_length_le h
          rw [List.length_cons] at this
          omega
    · cases h
      exact le_rfl

theorem takeExtension_length_lt {text rest : Bytes} (h : takeExtension text = some rest) :
    rest.length < text.length := by
  unfold takeExtension at h
  have hs := length_skipWhitespace_le text
  split at h
  · simp at h
  · next separator tail he =>
    rw [he,List.length_cons] at hs
    split at h
    · split at h
      · simp at h
      · next after ht =>
        have h1 := takeToken_length_le ht
        have h2 := length_skipWhitespace_le tail
        have h3 := takeExtensionValue_length_le h
        omega
    · simp at h

def validExtensions (text : Bytes) : Bool :=
  if text = [] then true
  else
    match _hext : takeExtension text with
    | none => false
    | some rest => validExtensions rest
termination_by text.length
decreasing_by exact takeExtension_length_lt _hext

/-- The trailer names that would affect framing, routing or authorization. -/
def forbiddenTrailers : List Bytes :=
  [ascii "content-length",ascii "transfer-encoding",ascii "host",ascii "connection",
    ascii "trailer",ascii "te",ascii "authorization",ascii "proxy-authorization",ascii "cookie",
    ascii "expect",ascii "upgrade",ascii "content-encoding",ascii "content-type",
    ascii "content-range"]

def validTrailer (line : Bytes) : Bool :=
  match find (char ':') line with
  | none => false
  | some at_ =>
    if at_ = 0 ∨ (line.take at_).all isHttpTokenCharacter = false then false
    else if forbiddenTrailers.contains ((line.take at_).map asciiLower) then false
    else (line.drop (at_ + 1)).all isHttpFieldValueByte

/-- `HttpBodyDecoder::Phase`. -/
inductive Phase
  | sizeLine
  | data
  | dataCr
  | dataLf
  | trailers
  | done
  deriving DecidableEq, Repr

structure HttpBodyDecoder where
  limits : HttpRequestParserLimits
  phase : Phase
  chunked : Bool
  remaining : ℕ
  decoded : ℕ := 0
  offset : ℕ
  metadataBytes : ℕ := 0
  trailerBytes : ℕ := 0
  trailerCount : ℕ := 0
  line : Bytes := []
  lineCr : Bool := false
  failure : Option HttpRequestParseError := none
  deriving DecidableEq, Repr

/-- `HttpBodyDecodeProgress`; the produced count is the length of the output. -/
structure HttpBodyDecodeProgress where
  consumed : ℕ
  output : Bytes
  complete : Bool
  deriving DecidableEq, Repr

namespace HttpBodyDecoder

def error (d : HttpBodyDecoder) (code : HttpRequestParseErrorCode) : HttpRequestParseError :=
  ⟨code,d.offset⟩

def create (head : HttpRequestHead) (limits : HttpRequestParserLimits) : HttpBodyDecoder :=
  let d : HttpBodyDecoder :=
    { limits := limits
      phase := if head.chunked then .sizeLine
        else if head.contentLength = 0 then .done else .data
      chunked := head.chunked
      remaining := head.contentLength
      offset := head.consumedBytes }
  if head.chunked = false ∧ limits.maxBodyBytes < head.contentLength then
    { d with failure := some (d.error .bodyTooLarge) }
  else d

def complete (d : HttpBodyDecoder) : Bool := d.phase == .done && d.failure.isNone

def finish (d : HttpBodyDecoder) : HttpBodyDecoder × Except HttpRequestParseError Unit :=
  match d.failure with
  | some e => (d,.error e)
  | none =>
    if d.complete then (d,.ok ())
    else ({ d with failure := some (d.error .incompleteBody) },.error (d.error .incompleteBody))

def finishLine (d : HttpBodyDecoder) : HttpBodyDecoder × Option HttpRequestParseError :=
  if d.phase = .trailers then
    if d.line = [] then ({ d with phase := .done },none)
    else if d.limits.maxTrailerCount ≤ d.trailerCount then (d,some (d.error .trailersTooLarge))
    else
      let d := { d with trailerCount := d.trailerCount + 1 }
      if validTrailer d.line then (d,none) else (d,some (d.error .invalidTrailer))
  else
    match fromChars 16 sizeMax d.line with
    | none => (d,some (d.error .malformedChunk))
    | some (size,extensions) =>
      if validExtensions extensions = false then (d,some (d.error .malformedChunk))
      else if d.limits.maxBodyBytes - d.decoded < size then (d,some (d.error .bodyTooLarge))
      else
        ({ d with remaining := size, phase := if size = 0 then .trailers else .data },none)

/-- `HttpBodyDecoder::metadata` behind the accounting of its byte. -/
def lineByte (d : HttpBodyDecoder) (byte : Byte) :
    HttpBodyDecoder × Option HttpRequestParseError :=
  if d.lineCr then
    if byte ≠ lf then (d,some (d.error .malformedChunk))
    else
      let result := d.finishLine
      ({ result.1 with line := [], lineCr := false },result.2)
  else if byte = cr then ({ d with lineCr := true },none)
  else if byte = lf then (d,some (d.error .malformedChunk))
  else
    let limit := if d.phase = .trailers then d.limits.maxTrailerBytes else d.limits.maxChunkLineBytes
    if limit ≤ d.line.length then (d,some (d.error .chunkMetadataTooLarge))
    else ({ d with line := d.line ++ [byte] },none)

def metadata (d : HttpBodyDecoder) (byte : Byte) :
    HttpBodyDecoder × Option HttpRequestParseError :=
  if d.limits.maxChunkMetadataBytes ≤ d.metadataBytes then
    (d,some (d.error .chunkMetadataTooLarge))
  else
    let d := { d with metadataBytes := d.metadataBytes + 1 }
    match d.phase with
    | .dataCr =>
      if byte ≠ cr then (d,some (d.error .malformedChunk)) else ({ d with phase := .dataLf },none)
    | .dataLf =>
      if byte ≠ lf then (d,some (d.error .malformedChunk)) else ({ d with phase := .sizeLine },none)
    | .trailers =>
      if d.limits.maxTrailerBytes ≤ d.trailerBytes then (d,some (d.error .trailersTooLarge))
      else { d with trailerBytes := d.trailerBytes + 1 }.lineByte byte
    | _ => d.lineByte byte

/-- The number of bytes `copy_data` moves. -/
def copyCount (d : HttpBodyDecoder) (available room : ℕ) : ℕ :=
  min (min d.remaining available) (min room (sizeMax - d.offset))

/-- `HttpBodyDecoder::copy_data` for that many bytes. -/
def copyData (d : HttpBodyDecoder) (count : ℕ) : HttpBodyDecoder :=
  { d with
    remaining := d.remaining - count
    decoded := d.decoded + count
    offset := d.offset + count
    phase := if d.remaining - count = 0 then (if d.chunked then .dataCr else .done) else d.phase }

/-- The loop of `HttpBodyDecoder::feed` on the input not yet consumed. -/
def feedLoop (d : HttpBodyDecoder) (input : Bytes) (capacity consumed : ℕ) (output : Bytes) :
    HttpBodyDecoder × Except HttpRequestParseError (ℕ × Bytes) :=
  match input with
  | [] => (d,.ok (consumed,output))
  | byte :: rest =>
    if d.phase = .done then (d,.ok (consumed,output))
    else if sizeMax ≤ d.offset then
      ({ d with failure := some (d.error .chunkMetadataTooLarge) },
        .error (d.error .chunkMetadataTooLarge))
    else if d.phase = .data then
      if capacity ≤ output.length then (d,.ok (consumed,output))
      else
        let count := d.copyCount (byte :: rest).length (capacity - output.length)
        feedLoop (d.copyData count) ((byte :: rest).drop count) capacity (consumed + count)
          (output ++ (byte :: rest).take count)
    else
      match d.metadata byte with
      | (d,some e) => ({ d with failure := some e },.error e)
      | (d,none) =>
        feedLoop { d with offset := d.offset + 1 } rest capacity (consumed + 1) output
termination_by 2 * input.length + if d.phase = .data then 1 else 0
decreasing_by
  · simp only [copyData,copyCount,List.length_drop,List.length_cons]
    grind
  · simp only [List.length_cons]
    split <;> omega

/-- `HttpBodyDecoder::feed` into an output span of the given capacity. -/
def feed (d : HttpBodyDecoder) (input : Bytes) (capacity : ℕ) :
    HttpBodyDecoder × Except HttpRequestParseError HttpBodyDecodeProgress :=
  match d.failure with
  | some e => (d,.error e)
  | none =>
    match d.feedLoop input capacity 0 [] with
    | (d,.error e) => (d,.error e)
    | (d,.ok (consumed,output)) => (d,.ok ⟨consumed,output,d.complete⟩)

end HttpBodyDecoder

example : ((HttpBodyDecoder.create ⟨.post,[],[],10,0,true⟩ {}).feed
    (ascii "3;a=\"b\"\r\nabc\r\n0\r\nx: y\r\n\r\nrest") 16).2 =
      .ok ⟨25,ascii "abc",true⟩ := by decide +kernel

end SpareNode.Http
