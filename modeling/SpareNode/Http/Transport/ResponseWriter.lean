import SpareNode.Http.Response.HttpResponse
import SpareNode.Network.TcpConnection

/-! # The response writer

A response goes out as its serialized head and then its body, in as many native sends as the
socket needs. The answers of the socket come by running number, so every pattern of short
writes and failures is some function. Whatever happens, what has gone out is the beginning of
the head followed by the body.
-/
namespace SpareNode.Http
open Network

def statusOmitsContentLength (status : HttpStatusCode) : Bool :=
  (minimumResponseStatusCode ≤ status.value && status.value < HttpStatusCode.ok.value) ||
    status = .noContent || status = .notModified

def serializeHttpResponseHead (response : HttpResponse) : Bytes :=
  ascii "HTTP/1.1 " ++ decimalText response.statusCode.value ++ ascii " " ++ response.reasonPhrase ++ crlf ++
    response.headers.flatMap (fun header => header.name ++ ascii ": " ++ header.value ++ crlf) ++
    (if statusOmitsContentLength response.statusCode then []
      else ascii "Content-Length: " ++ decimalText response.contentLength ++ crlf) ++
    (if HttpStatusCode.ok.value ≤ response.statusCode.value then
      ascii "Connection: close\r\nDate: " ++ response.dateValue ++ crlf else []) ++
    crlf

inductive HttpResponseWriteErrorCode where
  | networkFailure | connectionClosed | bodySourceFailure | bodySourceException
  | bodySourceContractViolation | bodyEndedEarly | resourceAllocationFailed
deriving DecidableEq, Repr

structure HttpResponseWriteError where
  code : HttpResponseWriteErrorCode
  networkError : Option NetworkError := none
  bodyError : Option HttpBodyReadError := none
deriving DecidableEq, Repr

/-- Everything sent on a connection, and how many sends that took. -/
structure Wire where
  sent : Bytes := []
  sends : ℕ := 0
deriving DecidableEq, Repr

/-- How many bytes the socket takes at each send, or its error. -/
abbrev Socket := ℕ → Except NetworkError ℕ

variable (socket : Socket)

def sendAll (wire : Wire) (bytes : Bytes) : Wire × Except HttpResponseWriteError Unit :=
  match bytes with
  | [] => (wire,.ok ())
  | b :: rest =>
    match socket wire.sends with
    | .error e => ({ wire with sends := wire.sends + 1 },.error { code := .networkFailure, networkError := some e })
    | .ok 0 => ({ wire with sends := wire.sends + 1 },.error { code := .connectionClosed })
    | .ok (n + 1) => sendAll ⟨wire.sent ++ b :: rest.take n,wire.sends + 1⟩ (rest.drop n)
termination_by bytes.length
decreasing_by
  simp only [List.length_drop,List.length_cons]
  omega

def streamBufferSize : ℕ := 16 * 1024

def writeStreamingBody (reader : HttpBodyReader) (call : ℕ) (wire : Wire) (remaining : ℕ) :
    Wire × Except HttpResponseWriteError Unit :=
  if _hdone : remaining = 0 then (wire,.ok ())
  else
    match reader call (min remaining streamBufferSize) with
    | .threw => (wire,.error { code := .bodySourceException })
    | .failed e => (wire,.error { code := .bodySourceFailure, bodyError := some e })
    | .produced bytes =>
      if min remaining streamBufferSize < bytes.length then
        (wire,.error { code := .bodySourceContractViolation })
      else if _hempty : bytes.length = 0 then (wire,.error { code := .bodyEndedEarly })
      else
        match sendAll socket wire bytes with
        | (wire,.error e) => (wire,.error e)
        | (wire,.ok ()) => writeStreamingBody reader (call + 1) wire (remaining - bytes.length)
termination_by remaining
decreasing_by omega

def writeHttpResponse (wire : Wire) (response : HttpResponse) (requestMethod : HttpMethod) :
    Wire × Except HttpResponseWriteError Unit :=
  match sendAll socket wire (serializeHttpResponseHead response) with
  | (wire,.error e) => (wire,.error e)
  | (wire,.ok ()) =>
    if requestMethod = .head then (wire,.ok ())
    else
      match response.bodyReader with
      | some reader => writeStreamingBody socket reader 0 wire response.contentLength
      | none => sendAll socket wire response.memoryBody

/-- The bytes that a reader yields before it fails, ends or breaks its contract. -/
def producedBody (reader : HttpBodyReader) (call remaining : ℕ) : Bytes :=
  if _hdone : remaining = 0 then []
  else
    match reader call (min remaining streamBufferSize) with
    | .produced bytes =>
      if min remaining streamBufferSize < bytes.length then []
      else if _hempty : bytes.length = 0 then []
      else bytes ++ producedBody reader (call + 1) (remaining - bytes.length)
    | _ => []
termination_by remaining
decreasing_by omega

/-- The head and the body of a response to a request method. -/
def responseBytes (response : HttpResponse) (requestMethod : HttpMethod) : Bytes :=
  serializeHttpResponseHead response ++
    (if requestMethod = .head then []
    else
      match response.bodyReader with
      | some reader => producedBody reader 0 response.contentLength
      | none => response.memoryBody)

/-- A write adds a beginning of some bytes to the wire, and all of them when it succeeds. -/
structure Writes {α ε : Type} (before : Wire) (bytes : Bytes) (result : Wire × Except ε α) : Prop where
  added : ∃ part, part <+: bytes ∧ result.1.sent = before.sent ++ part
  whole : ∀ a, result.2 = .ok a → result.1.sent = before.sent ++ bytes

theorem sendAll_writes (wire : Wire) (bytes : Bytes) : Writes wire bytes (sendAll socket wire bytes) := by
  fun_induction sendAll socket wire bytes with
  | case1 wire => exact ⟨⟨[],List.prefix_refl _,by simp⟩,by simp⟩
  | case2 wire b rest e he => exact ⟨⟨[],List.nil_prefix,by simp⟩,by simp⟩
  | case3 wire b rest he => exact ⟨⟨[],List.nil_prefix,by simp⟩,by simp⟩
  | case4 wire b rest n hn ih =>
    obtain ⟨⟨part,hpart,hadded⟩,hwhole⟩ := ih
    constructor
    · refine ⟨b :: rest.take n ++ part,?_,by rw [hadded]; simp⟩
      obtain ⟨tail,htail⟩ := hpart
      refine ⟨tail,?_⟩
      rw [List.append_assoc,htail,List.cons_append,List.take_append_drop]
    · intro a ha
      rw [hwhole a ha]
      simp

theorem Writes.nothing {before : Wire} {bytes : Bytes} {e : HttpResponseWriteError} :
    @Writes Unit HttpResponseWriteError before bytes (before,.error e) :=
  ⟨⟨[],List.nil_prefix,by simp⟩,by simp⟩

theorem Writes.append {α β ε : Type} {before : Wire} {first second : Bytes} {a : α}
    {middle : Wire × Except ε α} {result : Wire × Except ε β} (h : Writes before first middle)
    (hok : middle.2 = .ok a) (hnext : Writes middle.1 second result) :
    Writes before (first ++ second) result := by
  have hmiddle := h.whole a hok
  obtain ⟨⟨part,hpart,hadded⟩,hwhole⟩ := hnext
  constructor
  · refine ⟨first ++ part,(List.prefix_append_right_inj first).mpr hpart,?_⟩
    rw [hadded,hmiddle,List.append_assoc]
  · intro b hb
    rw [hwhole b hb,hmiddle,List.append_assoc]

/-- A write that stopped early is a beginning of anything that starts the same way. -/
theorem Writes.stopped {before after : Wire} {first second : Bytes} {e : HttpResponseWriteError}
    (h : @Writes Unit HttpResponseWriteError before first (after,.error e)) :
    @Writes Unit HttpResponseWriteError before (first ++ second) (after,.error e) := by
  obtain ⟨part,hpart,hadded⟩ := h.added
  exact ⟨⟨part,hpart.trans (List.prefix_append first second),hadded⟩,by simp⟩

theorem writeStreamingBody_writes (reader : HttpBodyReader) (call : ℕ) (wire : Wire) (remaining : ℕ) :
    Writes wire (producedBody reader call remaining) (writeStreamingBody socket reader call wire remaining) := by
  fun_induction writeStreamingBody socket reader call wire remaining with
  | case1 call wire => exact ⟨⟨[],List.nil_prefix,by simp⟩,by simp [producedBody]⟩
  | case2 => exact Writes.nothing
  | case3 => exact Writes.nothing
  | case4 => exact Writes.nothing
  | case5 => exact Writes.nothing
  | case6 call wire remaining hdone bytes hbytes hroom hne wire' e hsend =>
    have hwrites := sendAll_writes socket wire bytes
    rw [hsend] at hwrites
    rw [producedBody,dif_neg hdone,hbytes]
    dsimp only
    rw [if_neg hroom,dif_neg hne]
    exact hwrites.stopped
  | case7 call wire remaining hdone bytes hbytes hroom hne wire' hsend ih =>
    have hwrites := sendAll_writes socket wire bytes
    rw [hsend] at hwrites
    rw [producedBody,dif_neg hdone,hbytes]
    dsimp only
    rw [if_neg hroom,dif_neg hne]
    exact hwrites.append rfl ih

/-- Whatever the socket and the body source do, what goes out is a beginning of the response. -/
theorem writeHttpResponse_writes (wire : Wire) (response : HttpResponse) (requestMethod : HttpMethod) :
    Writes wire (responseBytes response requestMethod)
      (writeHttpResponse socket wire response requestMethod) := by
  have hhead := sendAll_writes socket wire (serializeHttpResponseHead response)
  unfold writeHttpResponse responseBytes
  rcases hsend : sendAll socket wire (serializeHttpResponseHead response) with ⟨wire',e | u⟩
  · rw [hsend] at hhead
    exact hhead.stopped
  · rw [hsend] at hhead
    dsimp only
    by_cases hmethod : requestMethod = .head
    · rw [if_pos hmethod,if_pos hmethod,List.append_nil]
      exact hhead
    · rw [if_neg hmethod,if_neg hmethod]
      cases response.bodyReader with
      | some reader => exact hhead.append rfl (writeStreamingBody_writes socket reader 0 wire' _)
      | none => exact hhead.append rfl (sendAll_writes socket wire' _)

end SpareNode.Http
