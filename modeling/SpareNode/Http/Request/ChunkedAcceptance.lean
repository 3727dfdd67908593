import SpareNode.Http.Request.BodyDecoderRuns
import SpareNode.Http.Request.ChunkedReading

/-! # The decoder accepts the chunked grammar

`Parsed` says of every state without a failure how the bytes read so far are an initial
part of a body. A state that is complete has read a whole valid text, and with the
reading of valid texts this is an equivalence.
-/
namespace SpareNode.Http
open Transducer HttpBodyDecoder

/-- The part of a line read so far, with its CR. -/
def openLine (d : HttpBodyDecoder) : Bytes := d.line ++ if d.lineCr then [cr] else []

/-- Where in a body the bytes read so far end, by phase. -/
inductive Position (limits : HttpRequestParserLimits) (d : HttpBodyDecoder) : Bytes → Bytes → Prop
  | sizeLine {chunks : List Chunk} (hp : d.phase = .sizeLine) (hc : ∀ c ∈ chunks, c.Valid limits)
      (hl : d.line.length ≤ limits.maxChunkLineBytes) :
      Position limits d (renderChunks chunks ++ openLine d) (chunksData chunks)
  | data {chunks : List Chunk} {line received : Bytes} (hp : d.phase = .data)
      (hc : ∀ c ∈ chunks, c.Valid limits) (hl : d.line = [] ∧ d.lineCr = false)
      (hs : IsSizeLine line (received.length + d.remaining)) (hr : 0 < d.remaining)
      (hm : line.length ≤ limits.maxChunkLineBytes) :
      Position limits d (renderChunks chunks ++ (line ++ crlf ++ received))
        (chunksData chunks ++ received)
  | dataCr {chunks : List Chunk} {c : Chunk} (hp : d.phase = .dataCr)
      (hc : ∀ c ∈ chunks, c.Valid limits) (hl : d.line = [] ∧ d.lineCr = false)
      (hv : c.Valid limits) :
      Position limits d (renderChunks chunks ++ (c.line ++ crlf ++ c.data))
        (chunksData chunks ++ c.data)
  | dataLf {chunks : List Chunk} {c : Chunk} (hp : d.phase = .dataLf)
      (hc : ∀ c ∈ chunks, c.Valid limits) (hl : d.line = [] ∧ d.lineCr = false)
      (hv : c.Valid limits) :
      Position limits d (renderChunks chunks ++ (c.line ++ crlf ++ c.data ++ [cr]))
        (chunksData chunks ++ c.data)
  | trailers {chunks : List Chunk} {lastLine : Bytes} {trailers : List Bytes}
      (hp : d.phase = .trailers) (hc : ∀ c ∈ chunks, c.Valid limits) (hs : IsSizeLine lastLine 0)
      (hm : lastLine.length ≤ limits.maxChunkLineBytes) (ht : ∀ l ∈ trailers, IsTrailer l)
      (hb : d.trailerBytes = (renderTrailers trailers ++ openLine d).length)
      (hn : d.trailerCount = trailers.length ∧ trailers.length ≤ limits.maxTrailerCount) :
      Position limits d
        (renderChunks chunks ++ (lastLine ++ crlf) ++ (renderTrailers trailers ++ openLine d))
        (chunksData chunks)
  | done {t : ChunkedText} (hp : d.phase = .done) (hc : ∀ c ∈ t.chunks, c.Valid limits)
      (hs : IsSizeLine t.lastLine 0) (hm : t.lastLine.length ≤ limits.maxChunkLineBytes)
      (ht : ∀ l ∈ t.trailers, IsTrailer l)
      (hb : t.trailerSection.length ≤ limits.maxTrailerBytes)
      (hn : t.trailers.length ≤ limits.maxTrailerCount) :
      Position limits d t.render t.payload

/-- What a decoder without a failure knows about the bytes it has read and emitted. -/
structure Parsed (limits : HttpRequestParserLimits) (start : ℕ) (u o : Bytes)
    (d : HttpBodyDecoder) : Prop where
  configured : d.limits = limits
  chunked : d.chunked = true
  failure : d.failure = none
  offset : d.offset = start + u.length
  offsetBound : u = [] ∨ start + u.length ≤ sizeMax
  decoded : d.decoded = o.length
  dataBound : d.decoded + (if d.phase = .data then d.remaining else 0) ≤ limits.maxBodyBytes
  metadata : d.metadataBytes + o.length = u.length
  metadataBound : d.metadataBytes ≤ limits.maxChunkMetadataBytes
  trailerBound : d.trailerBytes ≤ limits.maxTrailerBytes
  trailerStart : d.phase ≠ .trailers → d.phase ≠ .done → d.trailerBytes = 0 ∧ d.trailerCount = 0
  position : Position limits d u o

theorem parsed_create {head : HttpRequestHead} (limits : HttpRequestParserLimits)
    (hc : head.chunked = true) : Parsed limits head.consumedBytes [] [] (create head limits) := by
  have hd := create_at limits hc
  refine ⟨hd.limits,hd.chunked,hd.failure,hd.offset,Or.inl rfl,hd.decoded,?_,?_,?_,?_,
    fun _ _ => ⟨hd.trailer,hd.count⟩,?_⟩
  · simp [hd.phase,hd.decoded]
  · simp [hd.metadata]
  · simp [hd.metadata]
  · simp [hd.trailer]
  · have h : Position limits (create head limits) (renderChunks [] ++ openLine _) (chunksData []) :=
      .sizeLine hd.phase (by simp) (by simp [hd.line])
    simpa [openLine,hd.line,hd.lineCr,renderChunks,chunksData] using h

theorem renderChunks_snoc (chunks : List Chunk) (c : Chunk) :
    renderChunks (chunks ++ [c]) = renderChunks chunks ++ c.render := by simp [renderChunks]

theorem chunksData_snoc (chunks : List Chunk) (c : Chunk) :
    chunksData (chunks ++ [c]) = chunksData chunks ++ c.data := by simp [chunksData]

theorem renderTrailers_snoc (trailers : List Bytes) (line : Bytes) :
    renderTrailers (trailers ++ [line]) = renderTrailers trailers ++ (line ++ crlf) := by
  simp [renderTrailers]

/-- A payload byte. The last one ends the data of its chunk. -/
theorem Position.step_data {limits : HttpRequestParserLimits} {d : HttpBodyDecoder} {u o : Bytes}
    (b : Byte) (hd : d.chunked = true) (hp : d.phase = .data) (h : Position limits d u o) :
    Position limits (d.copyData 1) (u ++ [b]) (o ++ [b]) := by
  cases h with
  | @data chunks line received hp hc hl hs hr hm =>
    by_cases hlast : d.remaining - 1 = 0
    · have hlen : (received ++ [b]).length = received.length + d.remaining := by
        simp only [List.length_append,List.length_singleton]
        omega
      have hv : Chunk.Valid limits ⟨line,received ++ [b]⟩ := ⟨by rw [hlen]; exact hs,by simp,hm⟩
      have hn : Position limits (d.copyData 1) _ _ :=
        .dataCr (by simp [copyData,hlast,hd]) hc hl hv
      simpa [List.append_assoc] using hn
    · have hsize : (received ++ [b]).length + (d.copyData 1).remaining =
          received.length + d.remaining := by
        simp only [List.length_append,List.length_singleton,copyData]
        omega
      have hn : Position limits (d.copyData 1) _ _ :=
        .data (by simp [copyData,hlast,hp]) hc hl (by rw [hsize]; exact hs)
          (by simp only [copyData]; omega) hm
      simpa [List.append_assoc] using hn
  | _ => simp_all

/-- A byte of a size line. The end of the line starts the data or the trailers. -/
theorem Position.step_sizeLine {limits : HttpRequestParserLimits} {d d' : HttpBodyDecoder}
    {u o : Bytes} {b : Byte} (hcfg : d.limits = limits) (hp : d.phase = .sizeLine)
    (hstart : d.trailerBytes = 0 ∧ d.trailerCount = 0) (hs : Step d b d' [])
    (h : Position limits d u o) : Position limits d' (u ++ [b]) o := by
  subst hcfg
  cases h with
  | @sizeLine chunks _ hc hl =>
    cases hs with
    | sizeByte _ hr hcr hb hroom =>
      have hn : Position d.limits { d.framed with line := d.line ++ [b] } _ _ :=
        .sizeLine hp hc (by simp only [List.length_append,List.length_singleton]; omega)
      simpa [openLine,framed,hcr] using hn
    | sizeCr _ hr hcr =>
      have hn : Position d.limits { d.framed with lineCr := true } _ _ := .sizeLine hp hc hl
      simpa [openLine,framed,hcr] using hn
    | @sizeEnd size _ hr hcr hline hmax =>
      set d' : HttpBodyDecoder := { d.framed with
        remaining := size
        phase := if size = 0 then .trailers else .data
        line := []
        lineCr := false }
      have hopen : openLine d ++ [lf] = d.line ++ crlf := by simp [openLine,hcr,crlf]
      rw [List.append_assoc,hopen]
      by_cases hz : size = 0
      · have hn : Position d.limits d' (_ ++ (d.line ++ crlf) ++ (renderTrailers [] ++ openLine d'))
            _ := .trailers (by simp [d',hz]) hc (hz ▸ hline) hl (by simp)
          (by simpa [openLine,d',renderTrailers,framed] using hstart.1)
          ⟨by simpa [d',framed] using hstart.2,by simp⟩
        simpa [openLine,d',renderTrailers] using hn
      · have hn : Position d.limits d' (_ ++ (d.line ++ crlf ++ [])) _ :=
          .data (by simp [d',hz]) hc ⟨rfl,rfl⟩ (by simpa [d'] using hline)
            (by simp only [d']; omega) hl
        simpa using hn
    | _ => simp_all
  | _ => simp_all

theorem Position.step_dataEnd {limits : HttpRequestParserLimits} {d d' : HttpBodyDecoder}
    {u o : Bytes} {b : Byte} (hp : d.phase = .dataCr ∨ d.phase = .dataLf) (hs : Step d b d' [])
    (h : Position limits d u o) : Position limits d' (u ++ [b]) o := by
  cases h with
  | @dataCr chunks c hp' hc hl hv =>
    cases hs with
    | dataCr _ hr =>
      have hn : Position limits { d.framed with phase := .dataLf } _ _ := .dataLf rfl hc hl hv
      simpa using hn
    | _ => simp_all
  | @dataLf chunks c hp' hc hl hv =>
    cases hs with
    | dataLf _ hr =>
      have hn : Position limits { d.framed with phase := .sizeLine } (renderChunks (chunks ++ [c]) ++ _)
          _ := .sizeLine rfl (by simpa [or_imp,forall_and] using ⟨hc,hv⟩) (by simp [framed,hl.1])
      simpa [renderChunks_snoc,chunksData_snoc,Chunk.render,openLine,framed,hl,crlf] using hn
    | _ => simp_all
  | _ => simp_all

/-- A byte of the trailer section. An empty line ends the body. -/
theorem Position.step_trailers {limits : HttpRequestParserLimits} {d d' : HttpBodyDecoder}
    {u o : Bytes} {b : Byte} (hcfg : d.limits = limits) (hp : d.phase = .trailers)
    (hs : Step d b d' []) (h : Position limits d u o) : Position limits d' (u ++ [b]) o := by
  subst hcfg
  cases h with
  | @trailers chunks lastLine trailers _ hc hlast hm ht hb hn =>
    cases hs with
    | trailerByte _ hr hcr hbyte hroom =>
      have hnext : Position d.limits { d.trailed with line := d.line ++ [b] } _ _ :=
        .trailers hp hc hlast hm ht
          (by simp only [openLine,trailed,framed,hcr,List.length_append] at hb ⊢; simp at hb ⊢; omega) hn
      simpa [openLine,trailed,framed,hcr] using hnext
    | trailerCr _ hr hcr =>
      have hnext : Position d.limits { d.trailed with lineCr := true } _ _ :=
        .trailers hp hc hlast hm ht
          (by simp only [openLine,trailed,framed,hcr,List.length_append] at hb ⊢; simp at hb ⊢; omega) hn
      simpa [openLine,trailed,framed,hcr] using hnext
    | trailerEnd _ hr hcr hne hcount htrailer =>
      have hlen : (renderTrailers (trailers ++ [d.line])).length = d.trailerBytes + 1 := by
        rw [hb,renderTrailers_snoc]
        simp [openLine,hcr,crlf,Nat.add_assoc]
      have hnext : Position d.limits
          { d.trailed with trailerCount := d.trailerCount + 1, line := [], lineCr := false }
          (_ ++ _ ++ (renderTrailers (trailers ++ [d.line]) ++ _)) _ :=
        .trailers hp hc hlast hm (by simpa [or_imp,forall_and] using ⟨ht,htrailer⟩)
          (by simpa [openLine,trailed] using hlen.symm)
          ⟨by simp [hn.1],by simp only [List.length_append,List.length_singleton]; omega⟩
      simpa [renderTrailers_snoc,openLine,hcr,crlf] using hnext
    | bodyEnd _ hr hcr hline =>
      have hsection : renderTrailers trailers ++ openLine d ++ [lf] =
          ChunkedText.trailerSection ⟨chunks,lastLine,trailers⟩ := by
        simp [ChunkedText.trailerSection,openLine,hline,hcr,crlf]
      have hlen := congrArg List.length hsection
      rw [List.length_append,← hb,List.length_singleton] at hlen
      have hnext : Position d.limits { d.trailed with phase := .done, line := [], lineCr := false }
          (ChunkedText.render ⟨chunks,lastLine,trailers⟩)
          (ChunkedText.payload ⟨chunks,lastLine,trailers⟩) :=
        .done rfl hc hlast hm ht (by have := hr.2; omega) hn.2
      rw [List.append_assoc,hsection]
      exact hnext
    | _ => simp_all
  | _ => simp_all

namespace HttpBodyDecoder

theorem Step.counters {d d' : HttpBodyDecoder} {b : Byte} {o : Bytes} (h : Step d b d' o) :
    d'.limits = d.limits ∧ d'.chunked = d.chunked ∧ d'.failure = d.failure ∧
      d.offset < sizeMax ∧ d'.offset = d.offset + 1 ∧ d'.decoded = d.decoded + o.length ∧
      d'.metadataBytes + o.length = d.metadataBytes + 1 ∧
      (o = [] → d.metadataBytes < d.limits.maxChunkMetadataBytes) := by
  cases h with
  | data => simp_all [copyData]
  | dataCr _ hr | dataLf _ hr | sizeByte _ hr | sizeCr _ hr | sizeEnd _ hr =>
    simp_all [framed,Room]
  | trailerByte _ hr | trailerCr _ hr | trailerEnd _ hr | bodyEnd _ hr =>
    simp_all [trailed,framed,TrailerRoom,Room]

/-- Only trailer bytes move the trailer counters, within their limit. -/
theorem Step.trailer_counters {d d' : HttpBodyDecoder} {b : Byte} {o : Bytes} (h : Step d b d' o)
    (hb : d.trailerBytes ≤ d.limits.maxTrailerBytes)
    (hs : d.phase ≠ .trailers → d.phase ≠ .done → d.trailerBytes = 0 ∧ d.trailerCount = 0) :
    d'.trailerBytes ≤ d.limits.maxTrailerBytes ∧
      (d'.phase ≠ .trailers → d'.phase ≠ .done → d'.trailerBytes = 0 ∧ d'.trailerCount = 0) := by
  cases h with
  | trailerByte _ hr | trailerCr _ hr | trailerEnd _ hr | bodyEnd _ hr =>
    have := hr.2
    simp_all [trailed,framed]
  | _ => exact ⟨hb,by simp_all [copyData,framed]⟩

theorem ite_remaining_le (d : HttpBodyDecoder) :
    (if d.phase = .data then d.remaining else 0) ≤ d.remaining := by
  split <;> omega

theorem Step.data_bound {d d' : HttpBodyDecoder} {b : Byte} {o : Bytes} (h : Step d b d' o)
    (hr : WellFormed d)
    (hb : d.decoded + (if d.phase = .data then d.remaining else 0) ≤ d.limits.maxBodyBytes) :
    d'.decoded + (if d'.phase = .data then d'.remaining else 0) ≤ d.limits.maxBodyBytes := by
  cases h with
  | data _ hp =>
    have hpos := hr hp
    rw [if_pos hp] at hb
    have hle := ite_remaining_le (d.copyData 1)
    simp only [copyData] at hle ⊢
    omega
  | @sizeEnd size hp hroom hl hs hm =>
    rw [if_neg (by simp [hp])] at hb
    have hle := ite_remaining_le { d.framed with
      remaining := size, phase := if size = 0 then .trailers else .data, line := [], lineCr := false }
    simp only [framed] at hle ⊢
    omega
  | _ => simp_all [framed,trailed]

end HttpBodyDecoder

theorem Parsed.wellFormed {limits : HttpRequestParserLimits} {start : ℕ} {u o : Bytes}
    {d : HttpBodyDecoder} (h : Parsed limits start u o d) : WellFormed d := by
  intro hp
  cases h.position with
  | data _ _ _ _ hr _ => exact hr
  | _ => simp_all

theorem Parsed.step {limits : HttpRequestParserLimits} {start : ℕ} {u o o' : Bytes} {b : Byte}
    {d d' : HttpBodyDecoder} (h : Parsed limits start u o d) (hs : Step d b d' o') :
    Parsed limits start (u ++ [b]) (o ++ o') d' := by
  obtain ⟨c1,c2,c3,c4,c5,c6,c7,c8⟩ := hs.counters
  have hwf := h.wellFormed
  obtain ⟨rfl,h2,h3,h4,-,h6,h7,h8,h9,h10,h11,hpos⟩ := h
  obtain ⟨t1,t2⟩ := hs.trailer_counters h10 h11
  have hbound := hs.data_bound hwf h7
  have hmeta : d'.metadataBytes ≤ d.limits.maxChunkMetadataBytes := by
    cases o' with
    | nil =>
      have := c8 rfl
      simp only [List.length_nil] at c7
      omega
    | cons x o' =>
      simp only [List.length_cons] at c7
      omega
  refine ⟨c1,c2.trans h2,c3.trans h3,?_,Or.inr ?_,?_,hbound,?_,hmeta,t1,t2,?_⟩
  · rw [List.length_append,List.length_singleton]
    omega
  · rw [List.length_append,List.length_singleton]
    omega
  · rw [List.length_append]
    omega
  · rw [List.length_append,List.length_append,List.length_singleton]
    omega
  · cases hs with
    | data _ hp _ => exact hpos.step_data b h2 hp
    | dataCr hp hr =>
      rw [List.append_nil]
      exact hpos.step_dataEnd (Or.inl hp) (.dataCr hp hr)
    | dataLf hp hr =>
      rw [List.append_nil]
      exact hpos.step_dataEnd (Or.inr hp) (.dataLf hp hr)
    | sizeByte hp hr hl hb hs =>
      rw [List.append_nil]
      exact hpos.step_sizeLine rfl hp (h11 (by simp [hp]) (by simp [hp])) (.sizeByte hp hr hl hb hs)
    | sizeCr hp hr hl =>
      rw [List.append_nil]
      exact hpos.step_sizeLine rfl hp (h11 (by simp [hp]) (by simp [hp])) (.sizeCr hp hr hl)
    | sizeEnd hp hr hl hs hm =>
      rw [List.append_nil]
      exact hpos.step_sizeLine rfl hp (h11 (by simp [hp]) (by simp [hp])) (.sizeEnd hp hr hl hs hm)
    | trailerByte hp hr hl hb hs =>
      rw [List.append_nil]
      exact hpos.step_trailers rfl hp (.trailerByte hp hr hl hb hs)
    | trailerCr hp hr hl =>
      rw [List.append_nil]
      exact hpos.step_trailers rfl hp (.trailerCr hp hr hl)
    | trailerEnd hp hr hl hne hc ht =>
      rw [List.append_nil]
      exact hpos.step_trailers rfl hp (.trailerEnd hp hr hl hne hc ht)
    | bodyEnd hp hr hl hne =>
      rw [List.append_nil]
      exact hpos.step_trailers rfl hp (.bodyEnd hp hr hl hne)

/-- Along a run without a failure the bytes read stay an initial part of a body. -/
theorem Parsed.reads {limits : HttpRequestParserLimits} {start : ℕ} {u v o p : Bytes}
    {d d' : HttpBodyDecoder} (h : Parsed limits start u o d) (hr : machine.Reads d v d' p)
    (hf : d'.failure = none) : Parsed limits start (u ++ v) (o ++ p) d' := by
  induction hr generalizing u o with
  | nil => simpa using h
  | @cons s t a word out hs hr ih =>
    have hok : (machine.step s a).1.failure = none := by
      by_contra hbad
      have hhalt : machine.halted (machine.step s a).1 = true :=
        halted_iff.mpr (Or.inr (Option.isSome_iff_ne_none.mpr hbad))
      obtain ⟨-,rfl,-⟩ := hr.halted_nil hhalt
      exact hbad hf
    have hnext := ih (h.step (step_of_ok hs hok)) hf
    rwa [List.append_assoc,List.append_assoc,List.singleton_append] at hnext

theorem Parsed.text {limits : HttpRequestParserLimits} {start : ℕ} {u o : Bytes}
    {d : HttpBodyDecoder} (h : Parsed limits start u o d) (hd : d.phase = .done) :
    start + u.length ≤ sizeMax ∧ ∃ t : ChunkedText, t.render = u ∧ t.Valid limits ∧ t.payload = o := by
  obtain ⟨-,-,-,-,hsize,hdec,hdata,hmeta,hmax,-,-,hpos⟩ := h
  cases hpos with
  | @done t _ hc hs hm ht hb hn =>
    refine ⟨?_,t,rfl,⟨hc,hs,hm,ht,by omega,by omega,hb,hn⟩,rfl⟩
    rcases hsize with hnil | hsize
    · have hlen := congrArg List.length hnil
      simp [ChunkedText.render,crlf] at hlen
    · exact hsize
  | _ => simp_all

/-- Chunked decoding accepts exactly its grammar: whatever the calls, the decoder is
complete after `n` bytes with payload `p` exactly when the first `n` bytes are a valid
text with that data and end at an offset that is still a `size_t`. -/
theorem decodeRun_chunked_accepts (head : HttpRequestHead) (limits : HttpRequestParserLimits)
    (wire : Bytes) (xs : List Delivery) (hc : head.chunked = true)
    (hx : Finishes head limits wire xs) (n : ℕ) (p : Bytes) :
    ((decodeRun head limits xs).decoder.complete = true ∧
      (decodeRun head limits xs).consumed = n ∧ (decodeRun head limits xs).payload = p) ↔
    (n ≤ wire.length ∧ head.consumedBytes + n ≤ sizeMax ∧
      ∃ t : ChunkedText, t.render = wire.take n ∧ t.Valid limits ∧
        (t.chunks.map Chunk.data).flatten = p) := by
  obtain ⟨hdec,hok,-⟩ := finishes_run hx
  constructor
  · rintro ⟨hcomplete,hn,hp⟩
    obtain ⟨hdone,hf⟩ := complete_iff.mp hcomplete
    obtain ⟨hpay,hcons⟩ := hok hf
    obtain ⟨u,hu,hr,-⟩ := run_reads (T := machine) (create head limits) wire
    rw [← hdec,← hpay,hp] at hr
    have hlen := congrArg List.length hu
    rw [List.length_append] at hlen
    have htake : wire.take n = u := by
      rw [hu]
      exact List.take_left' (by omega)
    have hparsed := (parsed_create limits hc).reads hr hf
    obtain ⟨hsize,t,hrender,ht,hpayload⟩ := hparsed.text hdone
    refine ⟨by omega,?_,t,hrender.trans htake.symm,ht,hpayload⟩
    rw [List.nil_append] at hsize
    omega
  · rintro ⟨hn,hsize,t,hrender,ht,hp⟩
    have hlen : t.render.length = n := by rw [hrender,List.length_take,Nat.min_eq_left hn]
    obtain ⟨d,hr,hcomplete⟩ := reads_text hc ht (by omega)
    obtain ⟨hdone,hf⟩ := complete_iff.mp hcomplete
    have hrun := hr.run_eq (v := wire.drop n) (Or.inl (halted_iff.mpr (Or.inl hdone)))
    rw [hrender,List.take_append_drop] at hrun
    rw [hrun] at hdec hok
    obtain ⟨hpay,hcons⟩ := hok (hdec ▸ hf)
    refine ⟨hdec ▸ hcomplete,?_,hpay.trans hp⟩
    rw [hcons,List.length_drop]
    omega

/-- A chunk with an extension and a trailer, in front of pipelined bytes. -/
theorem decodeRun_chunked_accepts_trailer :
    ∃ t : ChunkedText, t.render = ascii "3;a=\"b\"\r\nabc\r\n0\r\nx: y\r\n\r\n" ∧ t.Valid {} ∧
      (t.chunks.map Chunk.data).flatten = ascii "abc" := by
  have hx := finishes_single ⟨.post,[],[],10,0,true⟩ {}
    (ascii "3;a=\"b\"\r\nabc\r\n0\r\nx: y\r\n\r\nnext")
  obtain ⟨-,-,t,hr,ht,hp⟩ := (decodeRun_chunked_accepts _ _ _ _ rfl hx 25 (ascii "abc")).mp
    ⟨by decide +kernel,by decide +kernel,by decide +kernel⟩
  exact ⟨t,hr.trans (by decide),ht,hp⟩

end SpareNode.Http
