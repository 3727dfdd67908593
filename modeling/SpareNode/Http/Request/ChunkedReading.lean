import SpareNode.Http.Request.ChunkedSteps

/-! # Reading a valid chunked body

The decoder reads a valid text piece by piece: lines and data, chunk after chunk, the
trailers and the empty line. `At` describes it between two lines.
-/
namespace SpareNode.Http
open Transducer HttpBodyDecoder

namespace HttpBodyDecoder

theorem Step.reads {d d' e : HttpBodyDecoder} {b : Byte} {u o p : Bytes} (h : Step d b d' o)
    (hr : machine.halted d = false) (k : machine.Reads d' u e p) :
    machine.Reads d (b :: u) e (o ++ p) := by
  have hs := h.machine_step
  have hall := Reads.cons (T := machine) (a := b) hr (by rw [hs]; exact k)
  rwa [hs] at hall

end HttpBodyDecoder

theorem Chunk.length_render (c : Chunk) : c.render.length = c.line.length + c.data.length + 4 := by
  simp only [Chunk.render,List.length_append,crlf,List.length_cons,List.length_nil]
  omega

theorem length_crlf : crlf.length = 2 := rfl

theorem renderChunks_cons (c : Chunk) (chunks : List Chunk) :
    renderChunks (c :: chunks) = c.render ++ renderChunks chunks := by simp [renderChunks]

theorem chunksData_cons (c : Chunk) (chunks : List Chunk) :
    chunksData (c :: chunks) = c.data ++ chunksData chunks := by simp [chunksData]

theorem renderTrailers_cons (line : Bytes) (trailers : List Bytes) :
    renderTrailers (line :: trailers) = line ++ crlf ++ renderTrailers trailers := by
  simp [renderTrailers]

theorem length_chunksData_le (chunks : List Chunk) :
    (chunksData chunks).length ≤ (renderChunks chunks).length := by
  induction chunks with
  | nil => simp [chunksData,renderChunks]
  | cons c chunks ih =>
    have hlen := c.length_render
    simp only [renderChunks_cons,chunksData_cons,List.length_append]
    omega

namespace HttpBodyDecoder

/-- The text of a size line, in front of its terminator. -/
theorem reads_sizeText {d : HttpBodyDecoder} {l : Bytes} (hp : d.phase = .sizeLine)
    (hf : d.failure = none) (hl : d.lineCr = false) (hmem : cr ∉ l ∧ lf ∉ l)
    (hs : d.line.length + l.length ≤ d.limits.maxChunkLineBytes)
    (hm : d.metadataBytes + l.length ≤ d.limits.maxChunkMetadataBytes)
    (ho : d.offset + l.length ≤ sizeMax) :
    machine.Reads d l { d with
      metadataBytes := d.metadataBytes + l.length
      offset := d.offset + l.length
      line := d.line ++ l } [] := by
  induction l generalizing d with
  | nil => simpa using Reads.nil d
  | cons b l ih =>
    simp only [List.mem_cons,not_or,List.length_cons] at hmem hs hm ho
    have hread : machine.halted d = false := reading_iff.mpr ⟨by simp [hp],hf⟩
    have hstep : Step d b _ [] := .sizeByte hp ⟨by omega,by omega⟩ hl
      ⟨Ne.symm hmem.1.1,Ne.symm hmem.2.1⟩ (by omega)
    have hrest := @ih { d.framed with line := d.line ++ [b] } hp hf hl ⟨hmem.1.2,hmem.2.2⟩
      (by simp [framed]; omega) (by simp [framed]; omega) (by simp [framed]; omega)
    have hall := hstep.reads hread hrest
    simpa [framed,Nat.add_assoc,Nat.add_comm 1] using hall

theorem reads_trailerText {d : HttpBodyDecoder} {l : Bytes} (hp : d.phase = .trailers)
    (hf : d.failure = none) (hl : d.lineCr = false) (hmem : cr ∉ l ∧ lf ∉ l)
    (hs : d.line.length ≤ d.trailerBytes)
    (ht : d.trailerBytes + l.length ≤ d.limits.maxTrailerBytes)
    (hm : d.metadataBytes + l.length ≤ d.limits.maxChunkMetadataBytes)
    (ho : d.offset + l.length ≤ sizeMax) :
    machine.Reads d l { d with
      metadataBytes := d.metadataBytes + l.length
      trailerBytes := d.trailerBytes + l.length
      offset := d.offset + l.length
      line := d.line ++ l } [] := by
  induction l generalizing d with
  | nil => simpa using Reads.nil d
  | cons b l ih =>
    simp only [List.mem_cons,not_or,List.length_cons] at hmem ht hm ho
    have hread : machine.halted d = false := reading_iff.mpr ⟨by simp [hp],hf⟩
    have hstep : Step d b _ [] := .trailerByte hp ⟨⟨by omega,by omega⟩,by omega⟩ hl
      ⟨Ne.symm hmem.1.1,Ne.symm hmem.2.1⟩ (by omega)
    have hrest := @ih { d.trailed with line := d.line ++ [b] } hp hf hl ⟨hmem.1.2,hmem.2.2⟩
      (by simp [trailed,framed]; omega) (by simp [trailed,framed]; omega)
      (by simp [trailed,framed]; omega) (by simp [trailed,framed]; omega)
    have hall := hstep.reads hread hrest
    simpa [trailed,framed,Nat.add_assoc,Nat.add_comm 1] using hall

/-- The decoder of a chunked body between two lines. -/
structure At (limits : HttpRequestParserLimits) (phase : Phase)
    (offset decoded metadata trailer count : ℕ) (d : HttpBodyDecoder) : Prop where
  limits : d.limits = limits
  phase : d.phase = phase
  chunked : d.chunked = true
  failure : d.failure = none
  line : d.line = []
  lineCr : d.lineCr = false
  offset : d.offset = offset
  decoded : d.decoded = decoded
  metadata : d.metadataBytes = metadata
  trailer : d.trailerBytes = trailer
  count : d.trailerCount = count

theorem create_at {head : HttpRequestHead} (limits : HttpRequestParserLimits)
    (hc : head.chunked = true) :
    At limits .sizeLine head.consumedBytes 0 0 0 0 (create head limits) := by
  constructor <;> simp [create,hc]

theorem reads_sizeLine {limits : HttpRequestParserLimits} {d : HttpBodyDecoder}
    {offset decoded metadata size : ℕ} {line : Bytes}
    (hd : At limits .sizeLine offset decoded metadata 0 0 d) (hline : IsSizeLine line size)
    (hs : line.length ≤ limits.maxChunkLineBytes) (hb : decoded + size ≤ limits.maxBodyBytes)
    (hm : metadata + line.length + 2 ≤ limits.maxChunkMetadataBytes)
    (ho : offset + line.length + 2 ≤ sizeMax) :
    ∃ d', machine.Reads d (line ++ crlf) d' [] ∧ d'.remaining = size ∧
      At limits (if size = 0 then .trailers else .data) (offset + line.length + 2) decoded
        (metadata + line.length + 2) 0 0 d' := by
  obtain ⟨rfl,hp,hc,hf,hl,hcr,rfl,rfl,rfl,ht,hcount⟩ := hd
  have htext := reads_sizeText hp hf hcr hline.not_mem (by simpa [hl] using hs) (by omega) (by omega)
  rw [hl,List.nil_append] at htext
  set d1 : HttpBodyDecoder := { d with
    metadataBytes := d.metadataBytes + line.length
    offset := d.offset + line.length
    line := line }
  have hcrStep : Step d1 cr _ [] := .sizeCr hp
    ⟨by dsimp only [d1]; omega,by dsimp only [d1]; omega⟩ hcr
  have hlfStep : Step { d1.framed with lineCr := true } lf _ [] := .sizeEnd hp
    ⟨by dsimp only [framed,d1]; omega,by dsimp only [framed,d1]; omega⟩ rfl hline
    (by dsimp only [framed,d1]; omega)
  have hend := hcrStep.reads (reading_iff.mpr ⟨by simp [d1,hp],hf⟩)
    (hlfStep.reads (reading_iff.mpr ⟨by simp [framed,d1,hp],hf⟩) (Reads.nil _))
  exact ⟨_,htext.trans hend,rfl,rfl,rfl,hc,hf,rfl,rfl,rfl,rfl,rfl,ht,hcount⟩

theorem reads_chunk {limits : HttpRequestParserLimits} {d : HttpBodyDecoder}
    {offset decoded metadata : ℕ} {c : Chunk} (hd : At limits .sizeLine offset decoded metadata 0 0 d)
    (hc : c.Valid limits) (hb : decoded + c.data.length ≤ limits.maxBodyBytes)
    (hm : metadata + c.line.length + 4 ≤ limits.maxChunkMetadataBytes)
    (ho : offset + c.render.length ≤ sizeMax) :
    ∃ d', machine.Reads d c.render d' c.data ∧
      At limits .sizeLine (offset + c.render.length) (decoded + c.data.length)
        (metadata + c.line.length + 4) 0 0 d' := by
  have hpos := List.length_pos_iff.mpr hc.data
  have hlen := c.length_render
  obtain ⟨d1,h1,hrem,hat⟩ := reads_sizeLine hd hc.line hc.lineSize hb (by omega) (by omega)
  rw [if_neg (by omega)] at hat
  obtain ⟨rfl,hp,hch,hf,hl,hcr,ho1,hd1,hm1,ht1,hc1⟩ := hat
  have h2 := copyData_reads d1 c.data hp hf hc.data hrem.ge (by omega)
  have hp2 : (d1.copyData c.data.length).phase = .dataCr := by simp [copyData,hrem,hch]
  set d2 := d1.copyData c.data.length
  have hm2 : d2.metadataBytes = metadata + c.line.length + 2 := hm1
  have ho2 : d2.offset = offset + c.line.length + 2 + c.data.length := by
    dsimp only [d2,copyData]
    omega
  have hroom : d2.metadataBytes + 2 ≤ d2.limits.maxChunkMetadataBytes := by
    rw [hm2]
    exact (by omega : metadata + c.line.length + 2 + 2 ≤ d1.limits.maxChunkMetadataBytes)
  have hcrStep : Step d2 cr _ [] := .dataCr hp2 ⟨by omega,by omega⟩
  have hlfStep : Step { d2.framed with phase := .dataLf } lf _ [] := .dataLf rfl
    ⟨by dsimp only [framed]; omega,by dsimp only [framed]; omega⟩
  have hend := hcrStep.reads (reading_iff.mpr ⟨by simp [hp2],hf⟩)
    (hlfStep.reads (reading_iff.mpr ⟨by simp,hf⟩) (Reads.nil _))
  have hall := (h1.trans h2).trans hend
  rw [List.nil_append,List.nil_append,List.nil_append,List.append_nil] at hall
  refine ⟨_,hall,rfl,rfl,hch,hf,hl,hcr,?_,?_,?_,ht1,hc1⟩
  · dsimp only [framed]
    omega
  · dsimp only [framed,d2,copyData]
    omega
  · dsimp only [framed]
    omega

theorem reads_chunks {limits : HttpRequestParserLimits} {d : HttpBodyDecoder}
    {offset decoded metadata : ℕ} {chunks : List Chunk}
    (hd : At limits .sizeLine offset decoded metadata 0 0 d) (hc : ∀ c ∈ chunks, c.Valid limits)
    (hb : decoded + (chunksData chunks).length ≤ limits.maxBodyBytes)
    (hm : metadata + (renderChunks chunks).length ≤
      (chunksData chunks).length + limits.maxChunkMetadataBytes)
    (ho : offset + (renderChunks chunks).length ≤ sizeMax) :
    ∃ d' metadata', machine.Reads d (renderChunks chunks) d' (chunksData chunks) ∧
      metadata' + (chunksData chunks).length = metadata + (renderChunks chunks).length ∧
      At limits .sizeLine (offset + (renderChunks chunks).length)
        (decoded + (chunksData chunks).length) metadata' 0 0 d' := by
  induction chunks generalizing d offset decoded metadata with
  | nil => exact ⟨d,metadata,Reads.nil d,rfl,hd⟩
  | cons c chunks ih =>
    obtain ⟨hc,hcs⟩ := List.forall_mem_cons.mp hc
    have hlen := c.length_render
    have hgrow := length_chunksData_le chunks
    simp only [renderChunks_cons,chunksData_cons,List.length_append] at hb hm ho ⊢
    obtain ⟨d1,h1,hd1⟩ := reads_chunk hd hc (by omega) (by omega) (by omega)
    obtain ⟨d2,metadata',h2,hmeta,hd2⟩ := ih hd1 hcs (by omega) (by omega) (by omega)
    refine ⟨d2,metadata',h1.trans h2,by omega,?_⟩
    rwa [Nat.add_assoc,Nat.add_assoc] at hd2

theorem reads_trailer {limits : HttpRequestParserLimits} {d : HttpBodyDecoder}
    {offset decoded metadata trailer count : ℕ} {line : Bytes}
    (hd : At limits .trailers offset decoded metadata trailer count d) (hline : IsTrailer line)
    (ht : trailer + line.length + 2 ≤ limits.maxTrailerBytes) (hc : count < limits.maxTrailerCount)
    (hm : metadata + line.length + 2 ≤ limits.maxChunkMetadataBytes)
    (ho : offset + line.length + 2 ≤ sizeMax) :
    ∃ d', machine.Reads d (line ++ crlf) d' [] ∧
      At limits .trailers (offset + line.length + 2) decoded (metadata + line.length + 2)
        (trailer + line.length + 2) (count + 1) d' := by
  obtain ⟨rfl,hp,hch,hf,hl,hcr,rfl,rfl,rfl,rfl,rfl⟩ := hd
  have htext := reads_trailerText hp hf hcr hline.not_mem (by simp [hl]) (by omega) (by omega)
    (by omega)
  rw [hl,List.nil_append] at htext
  set d1 : HttpBodyDecoder := { d with
    metadataBytes := d.metadataBytes + line.length
    trailerBytes := d.trailerBytes + line.length
    offset := d.offset + line.length
    line := line }
  have hcrStep : Step d1 cr _ [] := .trailerCr hp
    ⟨⟨by dsimp only [d1]; omega,by dsimp only [d1]; omega⟩,by dsimp only [d1]; omega⟩ hcr
  have hlfStep : Step { d1.trailed with lineCr := true } lf _ [] := .trailerEnd hp
    ⟨⟨by dsimp only [trailed,framed,d1]; omega,by dsimp only [trailed,framed,d1]; omega⟩,
      by dsimp only [trailed,framed,d1]; omega⟩ rfl hline.ne_nil hc hline
  have hend := hcrStep.reads (reading_iff.mpr ⟨by simp [d1,hp],hf⟩)
    (hlfStep.reads (reading_iff.mpr ⟨by simp [trailed,framed,d1,hp],hf⟩) (Reads.nil _))
  exact ⟨_,htext.trans hend,rfl,hp,hch,hf,rfl,rfl,rfl,rfl,rfl,rfl,rfl⟩

theorem reads_trailers {limits : HttpRequestParserLimits} {d : HttpBodyDecoder}
    {offset decoded metadata trailer count : ℕ} {trailers : List Bytes}
    (hd : At limits .trailers offset decoded metadata trailer count d)
    (hline : ∀ line ∈ trailers, IsTrailer line)
    (ht : trailer + (renderTrailers trailers).length ≤ limits.maxTrailerBytes)
    (hc : count + trailers.length ≤ limits.maxTrailerCount)
    (hm : metadata + (renderTrailers trailers).length ≤ limits.maxChunkMetadataBytes)
    (ho : offset + (renderTrailers trailers).length ≤ sizeMax) :
    ∃ d', machine.Reads d (renderTrailers trailers) d' [] ∧
      At limits .trailers (offset + (renderTrailers trailers).length) decoded
        (metadata + (renderTrailers trailers).length)
        (trailer + (renderTrailers trailers).length) (count + trailers.length) d' := by
  induction trailers generalizing d offset metadata trailer count with
  | nil => exact ⟨d,Reads.nil d,hd⟩
  | cons line trailers ih =>
    obtain ⟨hl,hls⟩ := List.forall_mem_cons.mp hline
    simp only [renderTrailers_cons,List.length_append,List.length_cons,length_crlf] at ht hc hm ho ⊢
    obtain ⟨d1,h1,hd1⟩ := reads_trailer hd hl (by omega) (by omega) (by omega) (by omega)
    obtain ⟨d2,h2,hd2⟩ := ih hd1 hls (by omega) (by omega) (by omega) (by omega)
    refine ⟨d2,h1.trans h2,?_⟩
    simpa only [Nat.add_assoc,Nat.add_comm 1] using hd2

theorem reads_bodyEnd {limits : HttpRequestParserLimits} {d : HttpBodyDecoder}
    {offset decoded metadata trailer count : ℕ}
    (hd : At limits .trailers offset decoded metadata trailer count d)
    (ht : trailer + 2 ≤ limits.maxTrailerBytes)
    (hm : metadata + 2 ≤ limits.maxChunkMetadataBytes) (ho : offset + 2 ≤ sizeMax) :
    ∃ d', machine.Reads d crlf d' [] ∧ d'.complete = true := by
  obtain ⟨rfl,hp,hch,hf,hl,hcr,rfl,rfl,rfl,rfl,rfl⟩ := hd
  have hcrStep : Step d cr _ [] := .trailerCr hp ⟨⟨by omega,by omega⟩,by omega⟩ hcr
  have hlfStep : Step { d.trailed with lineCr := true } lf _ [] := .bodyEnd hp
    ⟨⟨by dsimp only [trailed,framed]; omega,by dsimp only [trailed,framed]; omega⟩,
      by dsimp only [trailed,framed]; omega⟩ rfl hl
  have hend := hcrStep.reads (reading_iff.mpr ⟨by simp [hp],hf⟩)
    (hlfStep.reads (reading_iff.mpr ⟨by simp [trailed,framed,hp],hf⟩) (Reads.nil _))
  exact ⟨_,hend,complete_iff.mpr ⟨rfl,hf⟩⟩

theorem reads_text {head : HttpRequestHead} {limits : HttpRequestParserLimits} {t : ChunkedText}
    (hc : head.chunked = true) (ht : t.Valid limits)
    (ho : head.consumedBytes + t.render.length ≤ sizeMax) :
    ∃ d, machine.Reads (create head limits) t.render d t.payload ∧ d.complete = true := by
  obtain ⟨hchunks,hlast,hlastSize,htrailers,hdata,hmeta,htrailer,hcount⟩ := ht
  simp only [ChunkedText.render,ChunkedText.payload,ChunkedText.trailerSection,List.length_append,
    length_crlf] at *
  obtain ⟨d1,metadata,h1,hm1,hd1⟩ := reads_chunks (create_at limits hc) hchunks (by omega)
    (by omega) (by omega)
  obtain ⟨d2,h2,-,hd2⟩ := reads_sizeLine hd1 hlast hlastSize (by omega) (by omega) (by omega)
  rw [if_pos rfl] at hd2
  obtain ⟨d3,h3,hd3⟩ := reads_trailers hd2 htrailers (by omega) (by omega) (by omega) (by omega)
  obtain ⟨d4,h4,hd4⟩ := reads_bodyEnd hd3 (by omega) (by omega) (by omega)
  refine ⟨d4,?_,hd4⟩
  simpa using ((h1.trans h2).trans (h3.trans h4))

end HttpBodyDecoder
end SpareNode.Http
