import SpareNode.Http.Request.BodyDecoderMachine
import SpareNode.Http.Request.HeadAcceptance

/-! # The counters of the body decoder

Whatever is fed, and however often the end of the body is announced, every counter stays within
its limit, the offset counts the bytes consumed, and a failure is the decoder's last change.
-/
namespace SpareNode.Http
open HttpBodyDecoder

inductive DecoderCall where
  | feed (input : Bytes) (capacity : ℕ)
  | finish

namespace HttpBodyDecoder

def perform (d : HttpBodyDecoder) : DecoderCall → HttpBodyDecoder
  | .feed input capacity => (d.feed input capacity).1
  | .finish => d.finish.1

/-- What `progress.consumed` counts until the loop of `feed` ends, be it with an error. -/
def loopConsumed (d : HttpBodyDecoder) (input : Bytes) (capacity produced : ℕ) : ℕ :=
  match input with
  | [] => 0
  | byte :: rest =>
    if d.phase = .done ∨ sizeMax ≤ d.offset then 0
    else if d.phase = .data then
      if capacity ≤ produced then 0
      else
        let count := d.copyCount (byte :: rest).length (capacity - produced)
        count + loopConsumed (d.copyData count) ((byte :: rest).drop count) capacity (produced + count)
    else
      match d.metadata byte with
      | (_,some _) => 0
      | (d,none) => loopConsumed { d with offset := d.offset + 1 } rest capacity produced + 1
termination_by 2 * input.length + if d.phase = .data then 1 else 0
decreasing_by
  · simp only [copyData,copyCount,List.length_drop,List.length_cons]
    grind
  · simp only [List.length_cons]
    split <;> omega

def callConsumed (d : HttpBodyDecoder) : DecoderCall → ℕ
  | .feed input capacity => if d.failure.isSome then 0 else d.loopConsumed input capacity 0
  | .finish => 0

/-- The state behind a list of calls, and the bytes they have consumed. -/
def runCalls (d : HttpBodyDecoder) (calls : List DecoderCall) : HttpBodyDecoder × ℕ :=
  calls.foldl (fun (d,consumed) call => (d.perform call,consumed + d.callConsumed call)) (d,0)

/-- The limit of the line in the phase that collects it. -/
def lineLimit (limits : HttpRequestParserLimits) (phase : Phase) : ℕ :=
  if phase = .trailers then limits.maxTrailerBytes else limits.maxChunkLineBytes

/-- Every counter is within its limit, and the offset within the `last` one. -/
structure Bounded (limits : HttpRequestParserLimits) (last : ℕ) (d : HttpBodyDecoder) : Prop where
  configured : d.limits = limits
  body : d.decoded + d.remaining ≤ limits.maxBodyBytes
  metadata : d.metadataBytes ≤ limits.maxChunkMetadataBytes
  trailerBytes : d.trailerBytes ≤ limits.maxTrailerBytes
  trailerCount : d.trailerCount ≤ limits.maxTrailerCount
  line : d.line.length ≤ lineLimit limits d.phase
  data : d.phase = .data → 0 < d.remaining
  offset : d.offset ≤ last

section Bounds
variable {limits : HttpRequestParserLimits} {last : ℕ} {d : HttpBodyDecoder}

theorem create_bounded {head : HttpRequestHead} (hlength : head.contentLength ≤ limits.maxBodyBytes)
    (hconsumed : head.consumedBytes ≤ last) : Bounded limits last (create head limits) := by
  have hcreate : create head limits = { limits := limits
                                        phase := if head.chunked then .sizeLine
                                          else if head.contentLength = 0 then .done else .data
                                        chunked := head.chunked
                                        remaining := head.contentLength
                                        offset := head.consumedBytes } :=
    if_neg fun h => absurd h.2 (Nat.not_lt.mpr hlength)
  have hwf := create_wellFormed head limits
  rw [hcreate] at hwf ⊢
  exact ⟨rfl,(Nat.zero_add _).trans_le hlength,Nat.zero_le _,Nat.zero_le _,Nat.zero_le _,Nat.zero_le _,hwf,hconsumed⟩

/-- A completed line announces no more data than the body may still hold. -/
theorem finishLine_bounded (h : Bounded limits last d) (hphase : d.phase ≠ .data) :
    Bounded limits last { d.finishLine.1 with line := [], lineCr := false } := by
  obtain ⟨hlimits,hbody,hmetadata,hbytes,hcount,-,-,hoffset⟩ := h
  have hsame : Bounded limits last { d with line := [], lineCr := false } :=
    ⟨hlimits,hbody,hmetadata,hbytes,hcount,Nat.zero_le _,fun hd => absurd hd hphase,hoffset⟩
  unfold finishLine
  split
  · split
    · exact ⟨hlimits,hbody,hmetadata,hbytes,hcount,Nat.zero_le _,(fun hd => nomatch hd),hoffset⟩
    · split
      · exact hsame
      · rename_i hroom
        rw [hlimits] at hroom
        dsimp only
        split
        · exact ⟨hlimits,hbody,hmetadata,hbytes,Nat.not_le.mp hroom,Nat.zero_le _,fun hd => absurd hd hphase,hoffset⟩
        · exact ⟨hlimits,hbody,hmetadata,hbytes,Nat.not_le.mp hroom,Nat.zero_le _,fun hd => absurd hd hphase,hoffset⟩
  · split
    · exact hsame
    · rename_i size extensions _
      split
      · exact hsame
      · split
        · exact hsame
        · rename_i hsize
          rw [hlimits] at hsize
          refine ⟨hlimits,?_,hmetadata,hbytes,hcount,Nat.zero_le _,?_,hoffset⟩
          · dsimp only
            omega
          · intro hd
            dsimp only at hd ⊢
            split at hd
            · cases hd
            · omega

theorem lineByte_bounded (h : Bounded limits last d) (hphase : d.phase ≠ .data) (byte : Byte) :
    Bounded limits last (d.lineByte byte).1 := by
  unfold lineByte
  split
  · split
    · exact h
    · exact finishLine_bounded h hphase
  · split
    · exact ⟨h.configured,h.body,h.metadata,h.trailerBytes,h.trailerCount,h.line,h.data,h.offset⟩
    · split
      · exact h
      · have hlimit : (if d.phase = .trailers then d.limits.maxTrailerBytes else d.limits.maxChunkLineBytes) =
            lineLimit limits d.phase := by rw [h.configured,lineLimit]
        rw [hlimit]
        dsimp only
        split
        · exact h
        · rename_i hroom
          refine ⟨h.configured,h.body,h.metadata,h.trailerBytes,h.trailerCount,?_,h.data,h.offset⟩
          dsimp only
          rw [List.length_append,List.length_singleton]
          omega

/-- A framing byte is accounted for before it is looked at. -/
theorem metadata_bounded (h : Bounded limits last d) (hphase : d.phase ≠ .data) (byte : Byte) :
    Bounded limits last (d.metadata byte).1 := by
  unfold metadata
  split
  · exact h
  · rename_i hroom
    rw [h.configured] at hroom
    have hcounted : Bounded limits last { d with metadataBytes := d.metadataBytes + 1 } :=
      ⟨h.configured,h.body,Nat.not_le.mp hroom,h.trailerBytes,h.trailerCount,h.line,h.data,h.offset⟩
    have hline : lineLimit limits .sizeLine = limits.maxChunkLineBytes := rfl
    dsimp only
    split
    · rename_i hcr
      split
      · exact hcounted
      · refine ⟨h.configured,h.body,hcounted.metadata,h.trailerBytes,h.trailerCount,?_,(fun hd => nomatch hd),h.offset⟩
        simpa [lineLimit,hcr] using h.line
    · rename_i hlf
      split
      · exact hcounted
      · refine ⟨h.configured,h.body,hcounted.metadata,h.trailerBytes,h.trailerCount,?_,(fun hd => nomatch hd),h.offset⟩
        simpa [lineLimit,hlf] using h.line
    · split
      · exact hcounted
      · rename_i hbytes
        rw [h.configured] at hbytes
        have htrailed : Bounded limits last
            { d with metadataBytes := d.metadataBytes + 1, trailerBytes := d.trailerBytes + 1 } :=
          ⟨h.configured,h.body,hcounted.metadata,Nat.not_le.mp hbytes,h.trailerCount,h.line,h.data,h.offset⟩
        exact lineByte_bounded htrailed hphase byte
    · exact lineByte_bounded hcounted hphase byte

theorem copyData_bounded (h : Bounded limits last d) (hphase : d.phase = .data) {count : ℕ}
    (hcount : count ≤ d.remaining) (hoffset : d.offset + count ≤ last) : Bounded limits last (d.copyData count) := by
  have hline := h.line
  rw [hphase] at hline
  refine ⟨h.configured,?_,h.metadata,h.trailerBytes,h.trailerCount,?_,?_,hoffset⟩
  · have := h.body
    simp only [copyData]
    omega
  · simp only [copyData]
    split
    · split
      · exact hline
      · exact hline
    · rw [hphase]
      exact hline
  · intro hd
    simp only [copyData] at hd ⊢
    split at hd
    · split at hd <;> cases hd
    · omega

/-- What one call of `feed` does to the counters, round by round. -/
theorem feedLoop_bounded (hlast : sizeMax ≤ last) (h : Bounded limits last d) (input : Bytes)
    (capacity consumed : ℕ) (output : Bytes) : Bounded limits last (d.feedLoop input capacity consumed output).1 := by
  fun_induction feedLoop d input capacity consumed output with
  | case1 => exact h
  | case2 => exact h
  | case3 => exact ⟨h.configured,h.body,h.metadata,h.trailerBytes,h.trailerCount,h.line,h.data,h.offset⟩
  | case4 => exact h
  | case5 d consumed output byte rest hdone hoffset hphase hroom count ih =>
    apply ih
    apply copyData_bounded h hphase
    · show d.copyCount _ _ ≤ _
      unfold copyCount
      omega
    · refine Nat.le_trans ?_ hlast
      show d.offset + d.copyCount _ _ ≤ _
      unfold copyCount
      omega
  | case6 d consumed output byte rest hdone hoffset hphase d' e hmetadata =>
    have h' := metadata_bounded h hphase byte
    rw [hmetadata] at h'
    exact ⟨h'.configured,h'.body,h'.metadata,h'.trailerBytes,h'.trailerCount,h'.line,h'.data,h'.offset⟩
  | case7 d consumed output byte rest hdone hoffset hphase d' hmetadata ih =>
    have h' := metadata_bounded h hphase byte
    have hsame := (metadata_framed d byte).offset
    rw [hmetadata] at h' hsame
    apply ih
    refine ⟨h'.configured,h'.body,h'.metadata,h'.trailerBytes,h'.trailerCount,h'.line,h'.data,?_⟩
    dsimp only at hsame ⊢
    omega

theorem feed_bounded (hlast : sizeMax ≤ last) (h : Bounded limits last d) (input : Bytes) (capacity : ℕ) :
    Bounded limits last (d.feed input capacity).1 := by
  have hloop := feedLoop_bounded hlast h input capacity 0 []
  unfold feed
  split
  · exact h
  · split
    · rename_i d' e heq
      rw [heq] at hloop
      exact hloop
    · rename_i d' consumed output heq
      rw [heq] at hloop
      exact hloop

theorem finish_bounded (h : Bounded limits last d) : Bounded limits last d.finish.1 := by
  unfold finish
  split
  · exact h
  · split
    · exact h
    · exact ⟨h.configured,h.body,h.metadata,h.trailerBytes,h.trailerCount,h.line,h.data,h.offset⟩

theorem perform_bounded (hlast : sizeMax ≤ last) (h : Bounded limits last d) (call : DecoderCall) :
    Bounded limits last (d.perform call) := by
  cases call with
  | feed input capacity => exact feed_bounded hlast h input capacity
  | finish => exact finish_bounded h

end Bounds

theorem feedLoop_decoded (d : HttpBodyDecoder) (input : Bytes) (capacity consumed : ℕ) (output : Bytes) :
    d.decoded ≤ (d.feedLoop input capacity consumed output).1.decoded ∧
    ∀ n out, (d.feedLoop input capacity consumed output).2 = .ok (n,out) →
      (d.feedLoop input capacity consumed output).1.decoded + output.length = d.decoded + out.length := by
  fun_induction feedLoop d input capacity consumed output with
  | case1 => exact ⟨Nat.le_refl _,fun n out h => by cases h; rfl⟩
  | case2 => exact ⟨Nat.le_refl _,fun n out h => by cases h; rfl⟩
  | case3 =>
    refine ⟨Nat.le_refl _,?_⟩
    intro n out h
    cases h
  | case4 => exact ⟨Nat.le_refl _,fun n out h => by cases h; rfl⟩
  | case5 d consumed output byte rest hdone hoffset hphase hroom count ih =>
    have hcount : (output ++ (byte :: rest).take count).length = output.length + count := by
      rw [List.length_append,List.length_take]
      have : count ≤ (byte :: rest).length := by
        show d.copyCount _ _ ≤ _
        unfold copyCount
        omega
      omega
    have hmoved : (d.copyData count).decoded = d.decoded + count := rfl
    rw [hcount,hmoved] at ih
    refine ⟨by omega,?_⟩
    intro n out h
    have := ih.2 n out h
    omega
  | case6 d consumed output byte rest hdone hoffset hphase d' e hmetadata =>
    have hsame := (metadata_framed d byte).decoded
    rw [hmetadata] at hsame
    refine ⟨hsame.ge,?_⟩
    intro n out h
    cases h
  | case7 d consumed output byte rest hdone hoffset hphase d' hmetadata ih =>
    have hsame := (metadata_framed d byte).decoded
    rw [hmetadata] at hsame
    refine ⟨hsame.ge.trans ih.1,?_⟩
    intro n out h
    rw [← hsame]
    exact ih.2 n out h

/-- A call of `feed` decodes what it yields. -/
theorem feed_decoded (d : HttpBodyDecoder) (input : Bytes) (capacity : ℕ) :
    d.decoded ≤ (d.feed input capacity).1.decoded ∧
    ∀ p, (d.feed input capacity).2 = .ok p → (d.feed input capacity).1.decoded = d.decoded + p.output.length := by
  have hloop := feedLoop_decoded d input capacity 0 []
  unfold feed
  split
  · exact ⟨Nat.le_refl _,fun p h => nomatch h⟩
  · split
    · rename_i d' e heq
      rw [heq] at hloop
      exact ⟨hloop.1,fun p h => nomatch h⟩
    · rename_i d' consumed output heq
      rw [heq] at hloop
      refine ⟨hloop.1,?_⟩
      intro p h
      cases h
      exact hloop.2 _ _ rfl

theorem feedLoop_offset (d : HttpBodyDecoder) (input : Bytes) (capacity consumed : ℕ) (output : Bytes) :
    (d.feedLoop input capacity consumed output).1.offset = d.offset + d.loopConsumed input capacity output.length ∧
    ∀ n out, (d.feedLoop input capacity consumed output).2 = .ok (n,out) →
      n = consumed + d.loopConsumed input capacity output.length := by
  fun_induction feedLoop d input capacity consumed output with
  | case1 d consumed output =>
    rw [loopConsumed]
    exact ⟨rfl,fun n out h => by cases h; rfl⟩
  | case2 d consumed output byte rest hdone =>
    rw [loopConsumed,if_pos (.inl hdone)]
    exact ⟨rfl,fun n out h => by cases h; rfl⟩
  | case3 d consumed output byte rest hdone hoffset =>
    rw [loopConsumed,if_pos (.inr hoffset)]
    refine ⟨rfl,?_⟩
    intro n out h
    cases h
  | case4 d consumed output byte rest hdone hoffset hphase hroom =>
    rw [loopConsumed,if_neg (not_or.mpr ⟨hdone,hoffset⟩),if_pos hphase,if_pos hroom]
    exact ⟨rfl,fun n out h => by cases h; rfl⟩
  | case5 d consumed output byte rest hdone hoffset hphase hroom count ih =>
    have hcount : (output ++ (byte :: rest).take count).length = output.length + count := by
      rw [List.length_append,List.length_take]
      have : count ≤ (byte :: rest).length := by
        show d.copyCount _ _ ≤ _
        unfold copyCount
        omega
      omega
    rw [hcount] at ih
    rw [loopConsumed,if_neg (not_or.mpr ⟨hdone,hoffset⟩),if_pos hphase,if_neg hroom]
    refine ⟨?_,?_⟩
    · rw [ih.1]
      exact Nat.add_assoc ..
    · intro n out h
      rw [ih.2 n out h]
      exact Nat.add_assoc ..
  | case6 d consumed output byte rest hdone hoffset hphase d' e hmetadata =>
    have hsame := (metadata_framed d byte).offset
    rw [hmetadata] at hsame
    rw [loopConsumed,if_neg (not_or.mpr ⟨hdone,hoffset⟩),if_neg hphase,hmetadata]
    refine ⟨hsame,?_⟩
    intro n out h
    cases h
  | case7 d consumed output byte rest hdone hoffset hphase d' hmetadata ih =>
    have hsame := (metadata_framed d byte).offset
    rw [hmetadata] at hsame
    rw [loopConsumed,if_neg (not_or.mpr ⟨hdone,hoffset⟩),if_neg hphase,hmetadata]
    dsimp only at hsame ih ⊢
    refine ⟨?_,?_⟩
    · rw [ih.1,hsame]
      omega
    · intro n out h
      rw [ih.2 n out h]
      omega

/-- A call moves the offset by the bytes it consumes, which are those it reports. -/
theorem perform_offset (d : HttpBodyDecoder) (call : DecoderCall) :
    (d.perform call).offset = d.offset + d.callConsumed call := by
  cases call with
  | feed input capacity =>
    have hloop := (feedLoop_offset d input capacity 0 []).1
    unfold perform callConsumed feed
    dsimp only
    cases hf : d.failure with
    | some e => rfl
    | none =>
      dsimp only
      split
      · rename_i d' e heq
        rw [heq] at hloop
        exact hloop
      · rename_i d' consumed output heq
        rw [heq] at hloop
        exact hloop
  | finish =>
    unfold perform callConsumed finish
    dsimp only
    split
    · rfl
    · split <;> rfl

theorem callConsumed_reported {d d' : HttpBodyDecoder} {input : Bytes} {capacity : ℕ} {p : HttpBodyDecodeProgress}
    (h : d.feed input capacity = (d',.ok p)) : d.callConsumed (.feed input capacity) = p.consumed := by
  have hloop := (feedLoop_offset d input capacity 0 []).2
  unfold feed at h
  unfold callConsumed
  cases hf : d.failure with
  | some e => simp [hf] at h
  | none =>
    rw [hf] at h
    dsimp only at h
    split at h
    · simp at h
    · rename_i d'' consumed output heq
      rw [heq] at hloop
      have hcount := hloop consumed output rfl
      cases h
      simpa using hcount.symm

theorem perform_failed {d : HttpBodyDecoder} {e : HttpRequestParseError} (h : d.failure = some e)
    (call : DecoderCall) : d.perform call = d := by
  cases call with
  | feed input capacity =>
    unfold perform feed
    rw [h]
  | finish =>
    unfold perform finish
    rw [h]

theorem runCalls_snoc (d : HttpBodyDecoder) (calls : List DecoderCall) (call : DecoderCall) :
    d.runCalls (calls ++ [call]) =
      ((d.runCalls calls).1.perform call,(d.runCalls calls).2 + (d.runCalls calls).1.callConsumed call) := by
  rw [runCalls,List.foldl_append]
  rfl

theorem runCalls_failed {d : HttpBodyDecoder} {calls : List DecoderCall} {e : HttpRequestParseError}
    (h : (d.runCalls calls).1.failure = some e) (more : List DecoderCall) :
    (d.runCalls (calls ++ more)).1 = (d.runCalls calls).1 := by
  induction more using List.reverseRecOn with
  | nil => rw [List.append_nil]
  | append_singleton more call ih =>
    rw [← List.append_assoc,runCalls_snoc]
    dsimp only
    rw [ih]
    exact perform_failed h call

end HttpBodyDecoder

/-- In every state that feeding and finishing reach from an accepted head the counters are within
the head's limits and the offset is behind the head by the bytes consumed; a failure stays. -/
theorem body_decoder_counters (input : Span) (limits : HttpRequestParserLimits) (head : HttpRequestHead)
    (h : parseHttpRequestHead input.val limits = .ok (some head)) (calls : List DecoderCall) :
    Bounded limits sizeMax ((create head limits).runCalls calls).1 ∧
    ((create head limits).runCalls calls).1.offset =
      head.consumedBytes + ((create head limits).runCalls calls).2 ∧
    (∀ fragment capacity d p, ((create head limits).runCalls calls).1.feed fragment capacity = (d,.ok p) →
      ((create head limits).runCalls (calls ++ [.feed fragment capacity])).2 =
        ((create head limits).runCalls calls).2 + p.consumed) ∧
    ∀ e, ((create head limits).runCalls calls).1.failure = some e →
      ((create head limits).runCalls calls).1.complete = false ∧
      ∀ more, ((create head limits).runCalls (calls ++ more)).1 = ((create head limits).runCalls calls).1 := by
  obtain ⟨hconsumed,hlength⟩ := head_bounds h
  refine ⟨?_,?_,?_,?_⟩
  · induction calls using List.reverseRecOn with
    | nil => exact create_bounded hlength (hconsumed.trans input.property)
    | append_singleton calls call ih =>
      rw [runCalls_snoc]
      exact perform_bounded (Nat.le_refl _) ih call
  · induction calls using List.reverseRecOn with
    | nil => exact create_offset head limits
    | append_singleton calls call ih =>
      rw [runCalls_snoc]
      dsimp only
      rw [perform_offset,ih,Nat.add_assoc]
  · intro fragment capacity d p hfeed
    rw [runCalls_snoc]
    exact congrArg _ (callConsumed_reported hfeed)
  · intro e he
    refine ⟨?_,runCalls_failed he⟩
    cases hcomplete : ((create head limits).runCalls calls).1.complete with
    | false => rfl
    | true =>
      rw [complete_iff,he] at hcomplete
      exact absurd hcomplete.2 (by simp)

/-- A chunk is left unfinished and fed on behind the end of the body. -/
theorem body_decoder_counters_chunked :
    Bounded {} sizeMax ((create ⟨.get,ascii "/",
      [⟨ascii "Host",ascii "h"⟩,⟨ascii "Transfer-Encoding",ascii "chunked"⟩],55,0,true⟩ {}).runCalls [.feed (ascii "5\r\nab") 1,.finish,.feed (ascii "c") 9]).1 :=
  (body_decoder_counters ⟨ascii "GET / HTTP/1.1\r\nHost: h\r\nTransfer-Encoding: chunked\r\n\r\n",by decide⟩ {} _
    (by decide +kernel) _).1

end SpareNode.Http
