import SpareNode.Http.Request.HeadParser
import SpareNode.Http.Request.BodyDecoderMachine

/-! # The one-shot request parser

`parseHttpRequest` borrows a fixed-length body and decodes a chunked one through a
buffer of fixed size. Both bodies are the output of one run of the decoder's byte
machine, which is how the streaming ingestion reads them as well.
-/
namespace SpareNode.Http
open Transducer HttpBodyDecoder

def bodyDecodeBufferBytes : ℕ := 16 * 1024

/-- `HttpRequestParseResult`. -/
inductive HttpRequestParseResult
  | incomplete
  | complete (consumedBytes : ℕ) (request : HttpRequestView)
  deriving DecidableEq, Repr

namespace HttpBodyDecoder

theorem feedLoop_consumed_le {d d' : HttpBodyDecoder} {input output out : Bytes}
    {capacity consumed c : ℕ} (h : d.feedLoop input capacity consumed output = (d',.ok (c,out))) :
    consumed ≤ c := by
  fun_induction feedLoop d input capacity consumed output <;> grind

/-- With input and room for output, the loop makes progress or reaches the boundary. -/
theorem feedLoop_progress {d d' : HttpBodyDecoder} {input output out : Bytes}
    {capacity consumed c : ℕ} (hi : input ≠ []) (hc : output.length < capacity)
    (h : d.feedLoop input capacity consumed output = (d',.ok (c,out))) :
    consumed < c ∨ d'.phase = .done := by
  fun_induction feedLoop d input capacity consumed output with
  | case1 => exact absurd rfl hi
  | case2 d consumed output byte rest hp =>
    cases h
    exact Or.inr hp
  | case3 => simp at h
  | case4 => omega
  | case5 d consumed output byte rest hdone ho hp hroom count ih =>
    have hle := feedLoop_consumed_le h
    rcases Nat.eq_zero_or_pos count with hz | hpos
    · -- a data phase without data left is over at once
      rw [hz] at ih h
      simpa using ih (by simp) (by simpa using hc) h
    · omega
  | case6 => simp at h
  | case7 d consumed output byte rest hdone ho hp d1 hm ih =>
    have hle := feedLoop_consumed_le h
    omega

theorem feed_progress {d d' : HttpBodyDecoder} {input : Bytes} {capacity : ℕ}
    {p : HttpBodyDecodeProgress} (hi : input ≠ []) (hc : 0 < capacity)
    (h : d.feed input capacity = (d',.ok p)) :
    d.failure = none ∧ (0 < p.consumed ∨ d'.phase = .done) := by
  unfold feed at h
  split at h
  · simp at h
  · next hf =>
    split at h
    · simp at h
    · next d1 c out hloop =>
      simp only [Prod.mk.injEq,Except.ok.injEq] at h
      obtain ⟨rfl,rfl⟩ := h
      exact ⟨hf,feedLoop_progress hi (by simpa using hc) hloop⟩

/-- A call that leaves the body open has read something. -/
theorem feed_advances {d d' : HttpBodyDecoder} {input : Bytes} {capacity : ℕ} {p : HttpBodyDecodeProgress}
    (hi : input ≠ []) (hc : 0 < capacity) (h : d.feed input capacity = (d',.ok p)) (hopen : d'.complete = false)
    (hf : d'.failure = none) : 0 < p.consumed := by
  obtain ⟨-,hpos | hphase⟩ := feed_progress hi hc h
  · exact hpos
  · rw [complete_iff.mpr ⟨hphase,hf⟩] at hopen
    cases hopen

end HttpBodyDecoder

/-- The decoding loop of `parse_http_request` on the input not yet consumed. -/
def decodeChunked (d : HttpBodyDecoder) (pending : Bytes) (consumed : ℕ) (storage : Bytes) :
    Except HttpRequestParseError (HttpBodyDecoder × ℕ × Bytes) :=
  if _hloop : pending ≠ [] ∧ d.complete = false then
    match _hfeed : d.feed pending bodyDecodeBufferBytes with
    | (_,.error e) => .error e
    | (d',.ok p) =>
      decodeChunked d' (pending.drop p.consumed) (consumed + p.consumed) (storage ++ p.output)
  else .ok (d,consumed,storage)
termination_by 2 * pending.length + if d.phase = .done then 0 else 1
decreasing_by
  obtain ⟨hf,hpos⟩ := feed_progress _hloop.1 (by decide) _hfeed
  have hlen := List.length_pos_iff.mpr _hloop.1
  have hd : d.phase ≠ .done := fun hd => by simp [complete_iff.mpr ⟨hd,hf⟩] at _hloop
  simp only [List.length_drop,if_neg hd]
  split <;> grind

def parseHttpRequest (input : Bytes) (limits : HttpRequestParserLimits) :
    Except HttpRequestParseError HttpRequestParseResult :=
  match parseHttpRequestHead input limits with
  | .error e => .error e
  | .ok none => .ok .incomplete
  | .ok (some head) =>
    if head.chunked = false then
      if input.length - head.consumedBytes < head.contentLength then .ok .incomplete
      else .ok (.complete (head.consumedBytes + head.contentLength)
        (head.view (substr input head.consumedBytes head.contentLength)))
    else
      match decodeChunked (create head limits) (input.drop head.consumedBytes) head.consumedBytes
          [] with
      | .error e => .error e
      | .ok (d,consumed,storage) =>
        if d.complete = false then .ok .incomplete
        else .ok (.complete consumed (head.view storage))

end SpareNode.Http
