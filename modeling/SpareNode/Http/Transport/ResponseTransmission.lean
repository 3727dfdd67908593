import SpareNode.Http.Transport.ResponseHead

/-! # Response transmission

The writer once more, loop by loop, against a connection and a body reader that may answer anything: counts
beyond what was asked, failures and exceptions. A count beyond the span is a fault, since the span is then cut
outside of its range. The number of rounds bounds every loop.
-/
namespace SpareNode.Http.Transmission

/-- What one call of `send_with_options` does. -/
inductive SendAnswer where
  | sent (count : ℕ)
  | failed (error : Network.NetworkError)
  | outOfMemory

/-- The answer to the send with a running number, for the bytes that are left. -/
abbrev Connection := ℕ → Bytes → SendAnswer

/-- What a transmission has done: the bytes that are on the wire, the number of sends, and for every call of the reader
what it was asked for and what it answered. -/
structure Progress where
  sent : Bytes := []
  sends : ℕ := 0
  reports : List (ℕ × BodyRead) := []

inductive Outcome where
  | finished (result : Except HttpResponseWriteError Unit)
  | threw
  | fault
deriving DecidableEq

variable (connection : Connection)

def sendAll : (rounds : ℕ) → Progress → Bytes → Option (Progress × Outcome)
  | _,p,[] => some (p,.finished (.ok ()))
  | 0,_,_ :: _ => none
  | rounds + 1,p,b :: rest =>
    match connection p.sends (b :: rest) with
    | .failed e =>
      some ({ p with sends := p.sends + 1 },.finished (.error { code := .networkFailure, networkError := some e }))
    | .outOfMemory => some ({ p with sends := p.sends + 1 },.threw)
    | .sent count =>
      let p := { p with sent := p.sent ++ (b :: rest).take count, sends := p.sends + 1 }
      if count = 0 then some (p,.finished (.error { code := .connectionClosed }))
      else if (b :: rest).length < count then some (p,.fault)
      else sendAll rounds p ((b :: rest).drop count)

def writeStreamingBody (reader : HttpBodyReader) : (rounds : ℕ) → Progress → (remaining : ℕ) →
    Option (Progress × Outcome)
  | rounds,p,remaining =>
    if remaining = 0 then some (p,.finished (.ok ()))
    else
      match rounds with
      | 0 => none
      | rounds + 1 =>
        let requested := min remaining streamBufferSize
        let produced := reader p.reports.length requested
        let p := { p with reports := p.reports ++ [(requested,produced)] }
        match produced with
        | .threw => some (p,.finished (.error { code := .bodySourceException }))
        | .failed e => some (p,.finished (.error { code := .bodySourceFailure, bodyError := some e }))
        | .produced bytes =>
          if requested < bytes.length then some (p,.finished (.error { code := .bodySourceContractViolation }))
          else if bytes.length = 0 then some (p,.finished (.error { code := .bodyEndedEarly }))
          else
            match sendAll connection (rounds + 1) p bytes with
            | some (p,.finished (.ok ())) => writeStreamingBody reader rounds p (remaining - bytes.length)
            | stopped => stopped

/-- What is left of a transmission: the response's reader as the guard leaves it. -/
structure Final where
  progress : Progress
  outcome : Outcome
  bodyReader : Option HttpBodyReader

/-- The part of `write_http_response` in its try block; `headFits` is false when the head cannot be allocated. -/
def transmit (headFits : Bool) (rounds : ℕ) (response : HttpResponse) (requestMethod : HttpMethod) :
    Option (Progress × Outcome) :=
  if !headFits then some ({},.threw)
  else
    match sendAll connection rounds {} (serializeHttpResponseHead response) with
    | some (p,.finished (.ok ())) =>
      if requestMethod = .head then some (p,.finished (.ok ()))
      else
        match response.bodyReader with
        | some reader => writeStreamingBody connection reader rounds p response.contentLength
        | none => sendAll connection rounds p response.memoryBody
    | stopped => stopped

/-- `write_http_response`, with the handlers of its exceptions and `BodyReleaseGuard`. -/
def writeHttpResponse (headFits : Bool) (rounds : ℕ) (response : HttpResponse) (requestMethod : HttpMethod) :
    Option Final :=
  let active := requestMethod ≠ .head && response.bodyReader.isSome
  (transmit connection headFits rounds response requestMethod).map fun (progress,outcome) =>
    { progress
      outcome := match outcome with
        | .threw => .finished (.error { code := .resourceAllocationFailed })
        | outcome => outcome
      bodyReader := if active then none else response.bodyReader }

/-- The bytes of one report that keeps to what it was asked for. -/
def reportedBytes : ℕ × BodyRead → Bytes
  | (requested,.produced bytes) => if bytes.length ≤ requested then bytes else []
  | _ => []

def reported (reports : List (ℕ × BodyRead)) : Bytes := reports.flatMap reportedBytes

def Oversized : ℕ × BodyRead → Prop
  | (requested,.produced bytes) => requested < bytes.length
  | _ => False

/-- A part of some bytes has gone out, and all of them on success; the reader was not called. -/
structure Sends (before : Progress) (bytes : Bytes) (after : Progress) (outcome : Outcome) : Prop where
  added : ∃ part, part <+: bytes ∧ after.sent = before.sent ++ part
  whole : outcome = .finished (.ok ()) → after.sent = before.sent ++ bytes
  reports : after.reports = before.reports

variable {connection}

theorem sendAll_sends {rounds : ℕ} {before after : Progress} {bytes : Bytes} {outcome : Outcome}
    (h : sendAll connection rounds before bytes = some (after,outcome)) : Sends before bytes after outcome := by
  fun_induction sendAll connection rounds before bytes with
  | case1 rounds p =>
    obtain ⟨rfl,rfl⟩ := Prod.mk.inj (Option.some.inj h)
    exact ⟨⟨[],List.nil_prefix,(List.append_nil _).symm⟩,fun _ => (List.append_nil _).symm,rfl⟩
  | case2 => cases h
  | case3 rounds p b rest e he =>
    obtain ⟨rfl,rfl⟩ := Prod.mk.inj (Option.some.inj h)
    exact ⟨⟨[],List.nil_prefix,(List.append_nil _).symm⟩,nofun,rfl⟩
  | case4 rounds p b rest he =>
    obtain ⟨rfl,rfl⟩ := Prod.mk.inj (Option.some.inj h)
    exact ⟨⟨[],List.nil_prefix,(List.append_nil _).symm⟩,nofun,rfl⟩
  | case5 rounds p b rest he p' =>
    obtain ⟨rfl,rfl⟩ := Prod.mk.inj (Option.some.inj h)
    exact ⟨⟨_,List.take_prefix _ _,rfl⟩,nofun,rfl⟩
  | case6 rounds p b rest count he p' hzero hover =>
    obtain ⟨rfl,rfl⟩ := Prod.mk.inj (Option.some.inj h)
    exact ⟨⟨_,List.take_prefix _ _,rfl⟩,nofun,rfl⟩
  | case7 rounds p b rest count he p' hzero hover ih =>
    obtain ⟨⟨part,⟨more,hmore⟩,hadded⟩,hwhole,hreports⟩ := ih h
    refine ⟨⟨(b :: rest).take count ++ part,⟨more,?_⟩,?_⟩,?_,hreports⟩
    · rw [List.append_assoc,hmore,List.take_append_drop]
    · rw [hadded,← List.append_assoc]
    · intro hok
      rw [hwhole hok,List.append_assoc,List.take_append_drop]

/-- The reports of one transmission, and what of them has gone out. -/
structure Streams (before : Progress) (remaining : ℕ) (more : List (ℕ × BodyRead)) (after : Progress)
    (outcome : Outcome) : Prop where
  reports : after.reports = before.reports ++ more
  added : ∃ part, part <+: reported more ∧ after.sent = before.sent ++ part
  whole : outcome = .finished (.ok ()) → after.sent = before.sent ++ reported more ∧ (reported more).length = remaining
  oversized : ∀ report ∈ more, Oversized report → (∃ earlier, more = earlier ++ [report]) ∧
    outcome = .finished (.error { code := .bodySourceContractViolation })

theorem Streams.stopped {before : Progress} {remaining : ℕ} {report : ℕ × BodyRead} {e : HttpResponseWriteError}
    (h : Oversized report → e = { code := .bodySourceContractViolation }) :
    Streams before remaining [report] { before with reports := before.reports ++ [report] } (.finished (.error e)) := by
  refine ⟨rfl,⟨[],List.nil_prefix,(List.append_nil _).symm⟩,nofun,?_⟩
  intro other hmem hover
  rw [List.mem_singleton] at hmem
  subst hmem
  exact ⟨⟨[],rfl⟩,by rw [h hover]⟩

theorem reported_cons (report : ℕ × BodyRead) (more : List (ℕ × BodyRead)) :
    reported (report :: more) = reportedBytes report ++ reported more := List.flatMap_cons

/-- A report that went out as a whole, before the rest of the transmission. -/
theorem Streams.cons {before middle after : Progress} {remaining requested : ℕ} {bytes : Bytes}
    {more : List (ℕ × BodyRead)} {outcome : Outcome} (hroom : bytes.length ≤ requested) (hrequested : requested ≤ remaining)
    (hsent : middle.sent = before.sent ++ bytes)
    (hreports : middle.reports = before.reports ++ [(requested,.produced bytes)])
    (h : Streams middle (remaining - bytes.length) more after outcome) :
    Streams before remaining ((requested,.produced bytes) :: more) after outcome := by
  have hbytes : reportedBytes (requested,.produced bytes) = bytes := if_pos hroom
  obtain ⟨hafter,⟨part,hpart,hadded⟩,hwhole,hoversized⟩ := h
  constructor
  · rw [hafter,hreports,List.append_assoc,List.singleton_append]
  · refine ⟨bytes ++ part,?_,by rw [hadded,hsent,List.append_assoc]⟩
    rw [reported_cons,hbytes]
    exact (List.prefix_append_right_inj bytes).mpr hpart
  · intro hok
    obtain ⟨hsent',hlength⟩ := hwhole hok
    rw [reported_cons,hbytes,List.length_append,hlength]
    exact ⟨by rw [hsent',hsent,List.append_assoc],by omega⟩
  · intro report hmem hover
    rcases List.mem_cons.mp hmem with rfl | hmem
    · exact absurd hover (Nat.not_lt.mpr hroom)
    · obtain ⟨⟨earlier,hearlier⟩,houtcome⟩ := hoversized report hmem hover
      exact ⟨⟨_ :: earlier,congrArg _ hearlier⟩,houtcome⟩

theorem writeStreamingBody_streams {reader : HttpBodyReader} {rounds : ℕ} {before after : Progress} {remaining : ℕ}
    {outcome : Outcome} (h : writeStreamingBody connection reader rounds before remaining = some (after,outcome)) :
    ∃ more, Streams before remaining more after outcome := by
  fun_induction writeStreamingBody connection reader rounds before remaining with
  | case1 rounds p =>
    obtain ⟨rfl,rfl⟩ := Prod.mk.inj (Option.some.inj h)
    exact ⟨[],(List.append_nil _).symm,⟨[],List.nil_prefix,(List.append_nil _).symm⟩,
      fun _ => ⟨(List.append_nil _).symm,rfl⟩,nofun⟩
  | case2 => cases h
  | case3 p remaining hremaining rounds requested produced p' hproduced =>
    obtain ⟨rfl,rfl⟩ := Prod.mk.inj (Option.some.inj h)
    exact ⟨_,Streams.stopped (fun hover => by rw [hproduced] at hover; exact hover.elim)⟩
  | case4 p remaining hremaining rounds requested produced p' e hproduced =>
    obtain ⟨rfl,rfl⟩ := Prod.mk.inj (Option.some.inj h)
    exact ⟨_,Streams.stopped (fun hover => by rw [hproduced] at hover; exact hover.elim)⟩
  | case5 p remaining hremaining rounds requested produced p' bytes hproduced hover =>
    obtain ⟨rfl,rfl⟩ := Prod.mk.inj (Option.some.inj h)
    exact ⟨_,Streams.stopped (fun _ => rfl)⟩
  | case6 p remaining hremaining rounds requested produced p' bytes hproduced hroom hempty =>
    obtain ⟨rfl,rfl⟩ := Prod.mk.inj (Option.some.inj h)
    exact ⟨_,Streams.stopped (fun hover => by rw [hproduced] at hover; exact absurd hover hroom)⟩
  | case7 p remaining hremaining rounds requested produced p' bytes hproduced hroom hne middle hsend ih =>
    obtain ⟨more,hmore⟩ := ih h
    have hsends := sendAll_sends hsend
    have hreports : middle.reports = p.reports ++ [(requested,.produced bytes)] := by
      rw [hsends.reports,← hproduced]
    exact ⟨_,Streams.cons (Nat.not_lt.mp hroom) (Nat.min_le_left _ _) (hsends.whole rfl) hreports hmore⟩
  | case8 p remaining hremaining rounds requested produced p' bytes hproduced hroom hne hstopped =>
    -- the chunk was not sent as a whole
    have hsends := sendAll_sends h
    have hbytes : reported [(requested,produced)] = bytes := by
      rw [hproduced,reported_cons]
      exact (List.append_nil _).trans (if_pos (Nat.not_lt.mp hroom))
    refine ⟨[(requested,produced)],hsends.reports,?_,?_,?_⟩
    · rw [hbytes]
      exact hsends.added
    · rintro rfl
      exact (hstopped after h).elim
    · intro report hmem hover
      rw [List.mem_singleton] at hmem
      rw [hmem,hproduced] at hover
      exact absurd hover hroom

/-- No send reports more than it was asked for. -/
def InContract (connection : Connection) : Prop := ∀ index bytes count, connection index bytes = .sent count → count ≤ bytes.length

theorem sendAll_returns (hconnection : InContract connection) {rounds : ℕ} {p : Progress} {bytes : Bytes}
    (hrounds : bytes.length ≤ rounds) : ∃ after outcome, sendAll connection rounds p bytes = some (after,outcome) ∧
      outcome ≠ .fault := by
  fun_induction sendAll connection rounds p bytes with
  | case1 rounds p => exact ⟨_,_,rfl,nofun⟩
  | case2 => simp at hrounds
  | case3 rounds p b rest e he => exact ⟨_,_,rfl,nofun⟩
  | case4 rounds p b rest he => exact ⟨_,_,rfl,nofun⟩
  | case5 rounds p b rest he p' => exact ⟨_,_,rfl,nofun⟩
  | case6 rounds p b rest count he p' hzero hover => exact absurd (hconnection _ _ _ he) (Nat.not_le.mpr hover)
  | case7 rounds p b rest count he p' hzero hover ih =>
    apply ih
    rw [List.length_drop]
    omega

theorem writeStreamingBody_returns (hconnection : InContract connection) {reader : HttpBodyReader} {rounds : ℕ}
    {p : Progress} {remaining : ℕ} (hrounds : remaining ≤ rounds) : ∃ after outcome,
      writeStreamingBody connection reader rounds p remaining = some (after,outcome) ∧ outcome ≠ .fault := by
  fun_induction writeStreamingBody connection reader rounds p remaining with
  | case1 => exact ⟨_,_,rfl,nofun⟩
  | case2 p remaining hremaining => exact absurd (Nat.le_zero.mp hrounds) hremaining
  | case3 => exact ⟨_,_,rfl,nofun⟩
  | case4 => exact ⟨_,_,rfl,nofun⟩
  | case5 => exact ⟨_,_,rfl,nofun⟩
  | case6 => exact ⟨_,_,rfl,nofun⟩
  | case7 p remaining hremaining rounds requested produced p' bytes hproduced hroom hne middle hsend ih =>
    exact ih (by omega)
  | case8 p remaining hremaining rounds requested produced p' bytes hproduced hroom hne hstopped =>
    apply sendAll_returns hconnection
    have hrequested : requested ≤ remaining := Nat.min_le_left _ _
    omega

/-- The body that a transmission was to send: nothing for HEAD, what the reader has reported, or the bytes in memory. -/
def bodyBytes (response : HttpResponse) (requestMethod : HttpMethod) (reports : List (ℕ × BodyRead)) : Bytes :=
  if requestMethod = .head then []
  else
    match response.bodyReader with
    | some _ => reported reports
    | none => response.memoryBody

/-- What a transmission has done when it stops. -/
structure Transmitted (response : HttpResponse) (requestMethod : HttpMethod) (final : Final) : Prop where
  beginning : final.progress.sent <+:
    serializeHttpResponseHead response ++ bodyBytes response requestMethod final.progress.reports
  complete : final.outcome = .finished (.ok ()) →
    final.progress.sent = serializeHttpResponseHead response ++ bodyBytes response requestMethod final.progress.reports ∧
      (requestMethod ≠ .head →
        (bodyBytes response requestMethod final.progress.reports).length = response.contentLength)
  oversized : ∀ report ∈ final.progress.reports, Oversized report →
    (∃ earlier, final.progress.reports = earlier ++ [report]) ∧
      final.outcome = .finished (.error { code := .bodySourceContractViolation })
  head : requestMethod = .head → final.progress.reports = [] ∧ final.bodyReader = response.bodyReader
  released : requestMethod ≠ .head → final.bodyReader = none

/-- The try block, before the guard and the handlers. -/
structure Attempt (response : HttpResponse) (requestMethod : HttpMethod) (after : Progress) (outcome : Outcome) : Prop where
  beginning : after.sent <+: serializeHttpResponseHead response ++ bodyBytes response requestMethod after.reports
  complete : outcome = .finished (.ok ()) →
    after.sent = serializeHttpResponseHead response ++ bodyBytes response requestMethod after.reports ∧
      (requestMethod ≠ .head → (bodyBytes response requestMethod after.reports).length = response.contentLength)
  oversized : ∀ report ∈ after.reports, Oversized report → (∃ earlier, after.reports = earlier ++ [report]) ∧
    outcome = .finished (.error { code := .bodySourceContractViolation })
  head : requestMethod = .head → after.reports = []

/-- Nothing but a part of the head has gone out. -/
theorem Attempt.stopped {response : HttpResponse} {requestMethod : HttpMethod} {after : Progress} {outcome : Outcome}
    (hsent : after.sent <+: serializeHttpResponseHead response) (hreports : after.reports = [])
    (houtcome : outcome ≠ .finished (.ok ())) : Attempt response requestMethod after outcome where
  beginning := hsent.trans (List.prefix_append _ _)
  complete h := absurd h houtcome
  oversized report hmem := by
    rw [hreports] at hmem
    cases hmem
  head _ := hreports

theorem transmit_body {rounds : ℕ} {response : HttpResponse} {requestMethod : HttpMethod} {middle after : Progress}
    {outcome : Outcome} (hlength : response.bodyReader = none → response.memoryBody.length = response.contentLength)
    (hmethod : requestMethod ≠ .head) (hsent : middle.sent = serializeHttpResponseHead response)
    (hreports : middle.reports = [])
    (h : (match response.bodyReader with
      | some reader => writeStreamingBody connection reader rounds middle response.contentLength
      | none => sendAll connection rounds middle response.memoryBody) = some (after,outcome)) :
    Attempt response requestMethod after outcome := by
  cases hreader : response.bodyReader with
  | some reader =>
    rw [hreader] at h
    obtain ⟨more,hafter,⟨part,hpart,hadded⟩,hwhole,hoversized⟩ := writeStreamingBody_streams h
    rw [hreports,List.nil_append] at hafter
    have hbody : bodyBytes response requestMethod after.reports = reported more := by
      rw [bodyBytes,if_neg hmethod,hreader,hafter]
    rw [hsent] at hadded hwhole
    refine ⟨?_,?_,hafter ▸ hoversized,fun h => absurd h hmethod⟩
    · rw [hbody,hadded]
      exact (List.prefix_append_right_inj _).mpr hpart
    · intro hok
      rw [hbody]
      exact ⟨(hwhole hok).1,fun _ => (hwhole hok).2⟩
  | none =>
    rw [hreader] at h
    obtain ⟨⟨part,hpart,hadded⟩,hwhole,hafter⟩ := sendAll_sends h
    rw [hreports] at hafter
    have hbody : bodyBytes response requestMethod after.reports = response.memoryBody := by
      rw [bodyBytes,if_neg hmethod,hreader]
    rw [hsent] at hadded hwhole
    refine ⟨?_,?_,?_,fun h => absurd h hmethod⟩
    · rw [hbody,hadded]
      exact (List.prefix_append_right_inj _).mpr hpart
    · intro hok
      rw [hbody]
      exact ⟨hwhole hok,fun _ => hlength hreader⟩
    · intro report hmem
      rw [hafter] at hmem
      cases hmem

theorem transmit_attempt {headFits : Bool} {rounds : ℕ} {response : HttpResponse} {requestMethod : HttpMethod}
    {after : Progress} {outcome : Outcome}
    (hlength : response.bodyReader = none → response.memoryBody.length = response.contentLength)
    (h : transmit connection headFits rounds response requestMethod = some (after,outcome)) :
    Attempt response requestMethod after outcome := by
  unfold transmit at h
  split at h
  · obtain ⟨rfl,rfl⟩ := Prod.mk.inj (Option.some.inj h)
    exact Attempt.stopped List.nil_prefix rfl nofun
  · split at h
    · rename_i middle hsend
      obtain ⟨-,hwhole,hreports⟩ := sendAll_sends hsend
      have hsent : middle.sent = serializeHttpResponseHead response := by simpa using hwhole rfl
      split at h
      · rename_i hmethod
        obtain ⟨rfl,rfl⟩ := Prod.mk.inj (Option.some.inj h)
        have hbody : bodyBytes response requestMethod middle.reports = [] := if_pos hmethod
        refine ⟨?_,?_,?_,fun _ => hreports⟩
        · rw [hbody,List.append_nil,hsent]
        · intro _
          rw [hbody,List.append_nil]
          exact ⟨hsent,fun hne => absurd hmethod hne⟩
        · intro report hmem
          rw [hreports] at hmem
          cases hmem
      · rename_i hmethod
        exact transmit_body hlength hmethod hsent hreports h
    · rename_i hstopped
      obtain ⟨⟨part,hpart,hadded⟩,-,hreports⟩ := sendAll_sends h
      refine Attempt.stopped ?_ hreports ?_
      · rw [hadded]
        exact hpart
      · rintro rfl
        exact hstopped after h

/-- A memory body is as long as its response declares. -/
theorem Created.memoryBody {date : Bytes} {status : HttpStatusCode} {reasonPhrase : Bytes}
    {headers : List HttpResponseHeader} {contentLength : ℕ} {response : HttpResponse}
    (h : Created date status reasonPhrase headers contentLength response) (hreader : response.bodyReader = none) :
    response.memoryBody.length = response.contentLength := by
  rcases h with ⟨body,rfl,h⟩ | ⟨reader,h⟩
  · unfold HttpResponse.create at h
    split at h
    · cases h
    · split at h
      · cases h
      · obtain rfl := Except.ok.inj h
        rfl
  · unfold HttpResponse.createStreaming at h
    split at h
    · cases h
    · split at h
      · cases h
      · split at h
        · cases h
        · obtain rfl := Except.ok.inj h
          cases hreader

theorem transmit_returns (hconnection : InContract connection) (headFits : Bool) (rounds : ℕ) (response : HttpResponse)
    (requestMethod : HttpMethod) (hhead : (serializeHttpResponseHead response).length ≤ rounds)
    (hstream : response.contentLength ≤ rounds) (hmemory : response.memoryBody.length ≤ rounds) :
    ∃ after outcome, transmit connection headFits rounds response requestMethod = some (after,outcome) ∧
      outcome ≠ .fault := by
  obtain ⟨middle,sent,hsend,hfault⟩ := sendAll_returns hconnection (p := {}) hhead
  unfold transmit
  split
  · exact ⟨_,_,rfl,nofun⟩
  · rw [hsend]
    split
    · split
      · exact ⟨_,_,rfl,nofun⟩
      · split
        · exact writeStreamingBody_returns hconnection hstream
        · exact sendAll_returns hconnection hmemory
    · exact ⟨_,_,rfl,hfault⟩

/-- Whatever the reader and the connection do, the writer sends a beginning of the head and the body that was reported,
claims success only for the whole of both, and lets go of the reader. -/
theorem writeHttpResponse_exact {date : Bytes} {status : HttpStatusCode} {reasonPhrase : Bytes}
    {headers : List HttpResponseHeader} {contentLength : ℕ} {response : HttpResponse}
    (h : Created date status reasonPhrase headers contentLength response) (connection : Connection)
    (requestMethod : HttpMethod) (headFits : Bool) :
    (∀ rounds final, writeHttpResponse connection headFits rounds response requestMethod = some final →
      Transmitted response requestMethod final) ∧
    (InContract connection → ∃ bound, ∀ rounds ≥ bound, ∃ final,
      writeHttpResponse connection headFits rounds response requestMethod = some final ∧ final.outcome ≠ .fault) := by
  constructor
  · intro rounds final hfinal
    obtain ⟨⟨after,outcome⟩,htransmit,rfl⟩ := Option.map_eq_some_iff.mp hfinal
    obtain ⟨hbeginning,hcomplete,hoversized,hhead⟩ := transmit_attempt (Created.memoryBody h) htransmit
    constructor
    · exact hbeginning
    · intro hok
      apply hcomplete
      cases outcome with
      | finished result => exact hok
      | threw => cases hok
      | fault => cases hok
    · intro report hmem hover
      obtain ⟨hearlier,rfl⟩ := hoversized report hmem hover
      exact ⟨hearlier,rfl⟩
    · intro hmethod
      exact ⟨hhead hmethod,if_neg (by simp [hmethod])⟩
    · intro hmethod
      dsimp only
      split
      · rfl
      · rename_i hactive
        simpa [hmethod] using hactive
  · intro hconnection
    refine ⟨(serializeHttpResponseHead response).length + response.contentLength + response.memoryBody.length,?_⟩
    intro rounds hrounds
    obtain ⟨after,outcome,htransmit,hfault⟩ := transmit_returns hconnection headFits rounds response requestMethod
      (by omega) (by omega) (by omega)
    refine ⟨_,Option.map_eq_some_iff.mpr ⟨_,htransmit,rfl⟩,?_⟩
    cases outcome with
    | finished result => exact nofun
    | threw => exact nofun
    | fault => exact absurd rfl hfault

/-- A streamed response against a connection that takes three bytes at a time. -/
theorem writeHttpResponse_exact_hello : ∃ response,
    Created (ascii "Sun, 06 Nov 1994 08:49:37 GMT") .ok (ascii "OK") [] 5 response ∧
    (∀ rounds final, writeHttpResponse (fun _ bytes => .sent (min 3 bytes.length)) true rounds response .get = some final →
      Transmitted response .get final) ∧
    ∃ bound, ∀ rounds ≥ bound, ∃ final,
      writeHttpResponse (fun _ bytes => .sent (min 3 bytes.length)) true rounds response .get = some final ∧
        final.outcome ≠ .fault := by
  have hvalid : validateResponse .ok (ascii "OK") [] 5 = .ok () := by
    unfold validateResponse
    rw [fixedHeadSize_ok (by decide)]
    decide
  have hcreate : HttpResponse.createStreaming (ascii "Sun, 06 Nov 1994 08:49:37 GMT") .ok (ascii "OK") [] 5
      (some fun _ requested => .produced ((ascii "hello").take requested)) = .ok
        { statusCode := .ok
          reasonPhrase := ascii "OK"
          headers := []
          memoryBody := []
          contentLength := 5
          dateValue := ascii "Sun, 06 Nov 1994 08:49:37 GMT"
          bodyReader := some fun _ requested => .produced ((ascii "hello").take requested) } := by
    rw [HttpResponse.createStreaming,if_neg (by decide),hvalid]
    rfl
  have hcreated : Created (ascii "Sun, 06 Nov 1994 08:49:37 GMT") .ok (ascii "OK") [] 5 _ := Or.inr ⟨_,hcreate⟩
  obtain ⟨hsafe,hreturns⟩ := writeHttpResponse_exact hcreated (fun _ bytes => .sent (min 3 bytes.length)) .get true
  refine ⟨_,hcreated,hsafe,hreturns ?_⟩
  intro index bytes count hcount
  obtain rfl := SendAnswer.sent.inj hcount
  exact Nat.min_le_right _ _

def ofSocket (socket : Socket) : Connection := fun index _ =>
  match socket index with
  | .ok count => .sent count
  | .error e => .failed e

/-- Where no send is a fault, the loop does what it does on the socket. -/
theorem sendAll_socket {socket : Socket} {rounds : ℕ} {p after : Progress} {bytes : Bytes}
    {result : Except HttpResponseWriteError Unit}
    (h : sendAll (ofSocket socket) rounds p bytes = some (after,.finished result)) :
    Http.sendAll socket ⟨p.sent,p.sends⟩ bytes = (⟨after.sent,after.sends⟩,result) := by
  fun_induction sendAll (ofSocket socket) rounds p bytes with
  | case1 rounds p =>
    simp only [Option.some.injEq,Prod.mk.injEq,Outcome.finished.injEq] at h
    obtain ⟨rfl,rfl⟩ := h
    rw [Http.sendAll]
  | case2 => cases h
  | case3 rounds p b rest e he =>
    simp only [Option.some.injEq,Prod.mk.injEq,Outcome.finished.injEq] at h
    obtain ⟨rfl,rfl⟩ := h
    rw [Http.sendAll]
    unfold ofSocket at he
    split at he
    · cases he
    · rename_i hsocket
      obtain rfl := SendAnswer.failed.inj he
      rw [hsocket]
  | case4 rounds p b rest he => cases h
  | case5 rounds p b rest he p' =>
    simp only [Option.some.injEq,Prod.mk.injEq,Outcome.finished.injEq] at h
    rw [Http.sendAll,← h.1,← h.2]
    unfold ofSocket at he
    split at he
    · rename_i count hsocket
      obtain rfl := SendAnswer.sent.inj he
      rw [hsocket]
      simp [p']
    · cases he
  | case6 rounds p b rest count he p' hzero hover => simp at h
  | case7 rounds p b rest count he p' hzero hover ih =>
    rw [Http.sendAll]
    unfold ofSocket at he
    split at he
    · rename_i hsocket
      obtain rfl := SendAnswer.sent.inj he
      obtain ⟨count,rfl⟩ := Nat.exists_eq_succ_of_ne_zero hzero
      rw [hsocket]
      exact ih h
    · cases he

theorem writeStreamingBody_socket {socket : Socket} {reader : HttpBodyReader} {rounds : ℕ} {p after : Progress}
    {remaining : ℕ} {result : Except HttpResponseWriteError Unit}
    (h : writeStreamingBody (ofSocket socket) reader rounds p remaining = some (after,.finished result)) :
    Http.writeStreamingBody socket reader p.reports.length ⟨p.sent,p.sends⟩ remaining =
      (⟨after.sent,after.sends⟩,result) := by
  fun_induction writeStreamingBody (ofSocket socket) reader rounds p remaining with
  | case1 rounds p =>
    simp only [Option.some.injEq,Prod.mk.injEq,Outcome.finished.injEq] at h
    obtain ⟨rfl,rfl⟩ := h
    rw [Http.writeStreamingBody,dif_pos rfl]
  | case2 => cases h
  | case3 p remaining hremaining rounds requested produced p' hproduced =>
    simp only [Option.some.injEq,Prod.mk.injEq,Outcome.finished.injEq] at h
    obtain ⟨rfl,rfl⟩ := h
    rw [Http.writeStreamingBody,dif_neg hremaining,show reader _ _ = _ from hproduced]
  | case4 p remaining hremaining rounds requested produced p' e hproduced =>
    simp only [Option.some.injEq,Prod.mk.injEq,Outcome.finished.injEq] at h
    obtain ⟨rfl,rfl⟩ := h
    rw [Http.writeStreamingBody,dif_neg hremaining,show reader _ _ = _ from hproduced]
  | case5 p remaining hremaining rounds requested produced p' bytes hproduced hover =>
    simp only [Option.some.injEq,Prod.mk.injEq,Outcome.finished.injEq] at h
    obtain ⟨rfl,rfl⟩ := h
    rw [Http.writeStreamingBody,dif_neg hremaining,show reader _ _ = _ from hproduced]
    exact if_pos hover
  | case6 p remaining hremaining rounds requested produced p' bytes hproduced hroom hempty =>
    simp only [Option.some.injEq,Prod.mk.injEq,Outcome.finished.injEq] at h
    obtain ⟨rfl,rfl⟩ := h
    rw [Http.writeStreamingBody,dif_neg hremaining,show reader _ _ = _ from hproduced]
    dsimp only
    rw [if_neg hroom,dif_pos hempty]
  | case7 p remaining hremaining rounds requested produced p' bytes hproduced hroom hne middle hsend ih =>
    have hwire : Http.sendAll socket ⟨p.sent,p.sends⟩ bytes = (⟨middle.sent,middle.sends⟩,.ok ()) :=
      sendAll_socket (p := p') hsend
    have hcalls : middle.reports.length = p.reports.length + 1 := by
      rw [(sendAll_sends hsend).reports]
      simp [p']
    rw [Http.writeStreamingBody,dif_neg hremaining,show reader _ _ = _ from hproduced]
    dsimp only
    rw [if_neg hroom,dif_neg hne,hwire,← hcalls]
    exact ih h
  | case8 p remaining hremaining rounds requested produced p' bytes hproduced hroom hne hstopped =>
    have hwire : Http.sendAll socket ⟨p.sent,p.sends⟩ bytes = (⟨after.sent,after.sends⟩,result) :=
      sendAll_socket (p := p') h
    rw [Http.writeStreamingBody,dif_neg hremaining,show reader _ _ = _ from hproduced]
    dsimp only
    rw [if_neg hroom,dif_neg hne,hwire]
    cases result with
    | error e => rfl
    | ok u => exact (hstopped after h).elim

/-- A transmission that finishes is the one that the connection handler makes on its socket. -/
theorem transmit_socket {socket : Socket} {rounds : ℕ} {response : HttpResponse} {requestMethod : HttpMethod}
    {after : Progress} {result : Except HttpResponseWriteError Unit}
    (h : transmit (ofSocket socket) true rounds response requestMethod = some (after,.finished result)) :
    Http.writeHttpResponse socket {} response requestMethod = (⟨after.sent,after.sends⟩,result) := by
  rw [transmit,if_neg (by decide)] at h
  unfold Http.writeHttpResponse
  split at h
  · rename_i middle hsend
    have hwire : Http.sendAll socket {} (serializeHttpResponseHead response) = (⟨middle.sent,middle.sends⟩,.ok ()) :=
      sendAll_socket hsend
    have hcalls : middle.reports.length = 0 := by
      rw [(sendAll_sends hsend).reports]
      rfl
    rw [hwire]
    dsimp only
    split at h
    · rename_i hmethod
      simp only [Option.some.injEq,Prod.mk.injEq,Outcome.finished.injEq] at h
      obtain ⟨rfl,rfl⟩ := h
      rw [if_pos hmethod]
    · rename_i hmethod
      rw [if_neg hmethod]
      cases hreader : response.bodyReader with
      | some reader =>
        rw [hreader] at h
        rw [← hcalls]
        exact writeStreamingBody_socket h
      | none =>
        rw [hreader] at h
        exact sendAll_socket h
  · rename_i hstopped
    have hwire : Http.sendAll socket {} (serializeHttpResponseHead response) = (⟨after.sent,after.sends⟩,result) :=
      sendAll_socket h
    rw [hwire]
    cases result with
    | error e => rfl
    | ok u => exact (hstopped after h).elim

end SpareNode.Http.Transmission
