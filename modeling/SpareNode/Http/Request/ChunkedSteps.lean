import SpareNode.Http.Request.BodyDecoderMachine
import SpareNode.Http.Request.ChunkedGrammar

/-! # The successful steps of the decoder

`Step` lists every way in which one wire byte can be taken without a failure, with the
limits it has to respect and the state it leaves. All facts about accepted bodies are
read off this relation, in both directions.
-/
namespace SpareNode.Http.HttpBodyDecoder
open Transducer

def framed (d : HttpBodyDecoder) : HttpBodyDecoder :=
  { d with metadataBytes := d.metadataBytes + 1, offset := d.offset + 1 }

def trailed (d : HttpBodyDecoder) : HttpBodyDecoder :=
  { d.framed with trailerBytes := d.trailerBytes + 1 }

def Room (d : HttpBodyDecoder) : Prop :=
  d.offset < sizeMax ∧ d.metadataBytes < d.limits.maxChunkMetadataBytes

def TrailerRoom (d : HttpBodyDecoder) : Prop :=
  d.Room ∧ d.trailerBytes < d.limits.maxTrailerBytes

inductive Step (d : HttpBodyDecoder) : Byte → HttpBodyDecoder → Bytes → Prop
  | data (b : Byte) (hp : d.phase = .data) (ho : d.offset < sizeMax) : Step d b (d.copyData 1) [b]
  | dataCr (hp : d.phase = .dataCr) (hr : d.Room) : Step d cr { d.framed with phase := .dataLf } []
  | dataLf (hp : d.phase = .dataLf) (hr : d.Room) :
      Step d lf { d.framed with phase := .sizeLine } []
  | sizeByte {b : Byte} (hp : d.phase = .sizeLine) (hr : d.Room) (hl : d.lineCr = false)
      (hb : b ≠ cr ∧ b ≠ lf) (hs : d.line.length < d.limits.maxChunkLineBytes) :
      Step d b { d.framed with line := d.line ++ [b] } []
  | sizeCr (hp : d.phase = .sizeLine) (hr : d.Room) (hl : d.lineCr = false) :
      Step d cr { d.framed with lineCr := true } []
  | sizeEnd {size : ℕ} (hp : d.phase = .sizeLine) (hr : d.Room) (hl : d.lineCr = true)
      (hs : IsSizeLine d.line size) (hm : size ≤ d.limits.maxBodyBytes - d.decoded) :
      Step d lf { d.framed with
        remaining := size
        phase := if size = 0 then .trailers else .data
        line := []
        lineCr := false } []
  | trailerByte {b : Byte} (hp : d.phase = .trailers) (hr : d.TrailerRoom) (hl : d.lineCr = false)
      (hb : b ≠ cr ∧ b ≠ lf) (hs : d.line.length < d.limits.maxTrailerBytes) :
      Step d b { d.trailed with line := d.line ++ [b] } []
  | trailerCr (hp : d.phase = .trailers) (hr : d.TrailerRoom) (hl : d.lineCr = false) :
      Step d cr { d.trailed with lineCr := true } []
  | trailerEnd (hp : d.phase = .trailers) (hr : d.TrailerRoom) (hl : d.lineCr = true)
      (hne : d.line ≠ []) (hc : d.trailerCount < d.limits.maxTrailerCount) (ht : IsTrailer d.line) :
      Step d lf { d.trailed with
        trailerCount := d.trailerCount + 1
        line := []
        lineCr := false } []
  | bodyEnd (hp : d.phase = .trailers) (hr : d.TrailerRoom) (hl : d.lineCr = true)
      (hne : d.line = []) :
      Step d lf { d.trailed with phase := .done, line := [], lineCr := false } []

theorem byteStep_metadata {d d' : HttpBodyDecoder} {b : Byte} (ho : d.offset < sizeMax)
    (hp : d.phase ≠ .data) (hm : d.metadata b = (d',none)) :
    d.byteStep b = ({ d' with offset := d'.offset + 1 },[]) := by
  rw [byteStep,if_neg (by omega),if_neg hp,hm]

theorem finishLine_size {d : HttpBodyDecoder} {size : ℕ} (hp : d.phase = .sizeLine)
    (hs : IsSizeLine d.line size) (hm : size ≤ d.limits.maxBodyBytes - d.decoded) :
    d.finishLine = ({ d with remaining := size, phase := if size = 0 then .trailers else .data },
      none) := by
  obtain ⟨extensions,hc,he⟩ := isSizeLine_iff.mp hs
  rw [finishLine,if_neg (by simp [hp]),hc]
  simp only [he]
  rw [if_neg (by simp),if_neg (by omega)]

theorem finishLine_trailer {d : HttpBodyDecoder} (hp : d.phase = .trailers) (hne : d.line ≠ [])
    (hc : d.trailerCount < d.limits.maxTrailerCount) (ht : IsTrailer d.line) :
    d.finishLine = ({ d with trailerCount := d.trailerCount + 1 },none) := by
  rw [finishLine,if_pos hp,if_neg hne,if_neg (by omega)]
  simp [validTrailer_iff.mpr ht]

theorem finishLine_end {d : HttpBodyDecoder} (hp : d.phase = .trailers) (hne : d.line = []) :
    d.finishLine = ({ d with phase := .done },none) := by
  rw [finishLine,if_pos hp,if_pos hne]

/-- The counters `metadata` moves before it looks at a byte of a size line. -/
def counted (d : HttpBodyDecoder) : HttpBodyDecoder := { d with metadataBytes := d.metadataBytes + 1 }

/-- The counters `metadata` moves before it looks at a byte of a trailer. -/
def countedTrailer (d : HttpBodyDecoder) : HttpBodyDecoder :=
  { d.counted with trailerBytes := d.trailerBytes + 1 }

theorem metadata_sizeLine {d : HttpBodyDecoder} (b : Byte) (hp : d.phase = .sizeLine)
    (hm : d.metadataBytes < d.limits.maxChunkMetadataBytes) :
    d.metadata b = d.counted.lineByte b := by
  rw [metadata,if_neg (by omega)]
  simp only [counted,hp]

theorem metadata_trailers {d : HttpBodyDecoder} (b : Byte) (hp : d.phase = .trailers)
    (hm : d.metadataBytes < d.limits.maxChunkMetadataBytes)
    (ht : d.trailerBytes < d.limits.maxTrailerBytes) :
    d.metadata b = d.countedTrailer.lineByte b := by
  rw [metadata,if_neg (by omega)]
  simp only [countedTrailer,counted,hp]
  rw [if_neg (by omega)]

theorem lineByte_byte {d : HttpBodyDecoder} {b : Byte} (hl : d.lineCr = false)
    (hb : b ≠ cr ∧ b ≠ lf)
    (hs : d.line.length <
      if d.phase = .trailers then d.limits.maxTrailerBytes else d.limits.maxChunkLineBytes) :
    d.lineByte b = ({ d with line := d.line ++ [b] },none) := by
  rw [lineByte,if_neg (by simp [hl]),if_neg hb.1,if_neg hb.2]
  dsimp only
  rw [if_neg (by omega)]

theorem lineByte_cr {d : HttpBodyDecoder} (hl : d.lineCr = false) :
    d.lineByte cr = ({ d with lineCr := true },none) := by
  rw [lineByte,if_neg (by simp [hl]),if_pos rfl]

theorem lineByte_lf {d d' : HttpBodyDecoder} (hl : d.lineCr = true)
    (hf : d.finishLine = (d',none)) :
    d.lineByte lf = ({ d' with line := [], lineCr := false },none) := by
  rw [lineByte,if_pos hl,if_neg (by simp),hf]

theorem Step.machine_step {d d' : HttpBodyDecoder} {b : Byte} {o : Bytes} (h : Step d b d' o) :
    machine.step d b = (d',o) := by
  change d.byteStep b = (d',o)
  cases h with
  | data _ hp ho => rw [byteStep,if_neg (by omega),if_pos hp]
  | dataCr hp hr =>
    have hm : d.metadata cr = ({ d.counted with phase := .dataLf },none) := by
      rw [metadata,if_neg (Nat.not_le.mpr hr.2)]
      simp only [hp]
      rfl
    exact byteStep_metadata hr.1 (by simp [hp]) hm
  | dataLf hp hr =>
    have hm : d.metadata lf = ({ d.counted with phase := .sizeLine },none) := by
      rw [metadata,if_neg (Nat.not_le.mpr hr.2)]
      simp only [hp]
      rfl
    exact byteStep_metadata hr.1 (by simp [hp]) hm
  | sizeByte hp hr hl hb hs =>
    have hline : d.counted.lineByte b = _ := lineByte_byte hl hb (by simpa [counted,hp] using hs)
    exact byteStep_metadata hr.1 (by simp [hp]) ((metadata_sizeLine b hp hr.2).trans hline)
  | sizeCr hp hr hl =>
    have hline : d.counted.lineByte cr = _ := lineByte_cr hl
    exact byteStep_metadata hr.1 (by simp [hp]) ((metadata_sizeLine cr hp hr.2).trans hline)
  | sizeEnd hp hr hl hs hm =>
    have hline : d.counted.lineByte lf = _ := lineByte_lf hl (finishLine_size hp hs hm)
    exact byteStep_metadata hr.1 (by simp [hp]) ((metadata_sizeLine lf hp hr.2).trans hline)
  | trailerByte hp hr hl hb hs =>
    have hline : d.countedTrailer.lineByte b = _ :=
      lineByte_byte hl hb (by simpa [countedTrailer,counted,hp] using hs)
    exact byteStep_metadata hr.1.1 (by simp [hp])
      ((metadata_trailers b hp hr.1.2 hr.2).trans hline)
  | trailerCr hp hr hl =>
    have hline : d.countedTrailer.lineByte cr = _ := lineByte_cr hl
    exact byteStep_metadata hr.1.1 (by simp [hp])
      ((metadata_trailers cr hp hr.1.2 hr.2).trans hline)
  | trailerEnd hp hr hl hne hc ht =>
    have hline : d.countedTrailer.lineByte lf = _ :=
      lineByte_lf hl (finishLine_trailer hp hne hc ht)
    exact byteStep_metadata hr.1.1 (by simp [hp])
      ((metadata_trailers lf hp hr.1.2 hr.2).trans hline)
  | bodyEnd hp hr hl hne =>
    have hline : d.countedTrailer.lineByte lf = _ := lineByte_lf hl (finishLine_end hp hne)
    exact byteStep_metadata hr.1.1 (by simp [hp])
      ((metadata_trailers lf hp hr.1.2 hr.2).trans hline)

theorem finishLine_size_inv {d d' : HttpBodyDecoder} (hp : d.phase = .sizeLine)
    (h : d.finishLine = (d',none)) :
    ∃ size, IsSizeLine d.line size ∧ size ≤ d.limits.maxBodyBytes - d.decoded := by
  rw [finishLine,if_neg (by simp [hp])] at h
  split at h
  · simp at h
  · next size extensions hc =>
    split at h
    · simp at h
    · next he =>
      split at h
      · simp at h
      · next hm =>
        exact ⟨size,isSizeLine_iff.mpr ⟨extensions,hc,by simpa using he⟩,by omega⟩

theorem finishLine_trailer_inv {d d' : HttpBodyDecoder} (hp : d.phase = .trailers)
    (h : d.finishLine = (d',none)) :
    d.line = [] ∨ (d.line ≠ [] ∧ d.trailerCount < d.limits.maxTrailerCount ∧ IsTrailer d.line) := by
  rw [finishLine,if_pos hp] at h
  split at h
  · next hl => exact Or.inl hl
  · next hl =>
    split at h
    · simp at h
    · next hc =>
      dsimp only at h
      split at h
      · next ht => exact Or.inr ⟨hl,by omega,validTrailer_iff.mp ht⟩
      · simp at h

/-- What a line takes: a CR, the LF behind it, or another byte within the limit. -/
theorem lineByte_inv {d d' : HttpBodyDecoder} {b : Byte} (h : d.lineByte b = (d',none)) :
    (d.lineCr = true ∧ b = lf ∧ ∃ d1, d.finishLine = (d1,none)) ∨
    (d.lineCr = false ∧ b = cr) ∨
    (d.lineCr = false ∧ (b ≠ cr ∧ b ≠ lf) ∧ d.line.length <
      if d.phase = .trailers then d.limits.maxTrailerBytes else d.limits.maxChunkLineBytes) := by
  rw [lineByte] at h
  split at h
  · next hl =>
    split at h
    · simp at h
    · next hb =>
      refine Or.inl ⟨hl,by simpa using hb,d.finishLine.1,?_⟩
      exact Prod.ext rfl (Prod.mk.inj h).2
  · next hl =>
    have hl : d.lineCr = false := by simpa using hl
    split at h
    · next hb => exact Or.inr (Or.inl ⟨hl,hb⟩)
    · next hc =>
      split at h
      · simp at h
      · next hf =>
        dsimp only at h
        by_cases hs : (if d.phase = .trailers then d.limits.maxTrailerBytes
            else d.limits.maxChunkLineBytes) ≤ d.line.length
        · rw [if_pos hs] at h
          simp at h
        · exact Or.inr (Or.inr ⟨hl,⟨hc,hf⟩,by omega⟩)

/-- A framing byte that the decoder takes is one of the listed steps. -/
theorem metadata_inv {d d' : HttpBodyDecoder} {b : Byte} (ho : d.offset < sizeMax)
    (hd : d.phase ≠ .done) (hp : d.phase ≠ .data) (h : d.metadata b = (d',none)) :
    ∃ d'' o, Step d b d'' o := by
  have hm : d.metadataBytes < d.limits.maxChunkMetadataBytes := by
    by_contra hm
    rw [metadata,if_pos (by omega)] at h
    simp at h
  cases hphase : d.phase with
  | data => exact absurd hphase hp
  | done => exact absurd hphase hd
  | dataCr =>
    rw [metadata,if_neg (by omega)] at h
    simp only [hphase] at h
    split at h
    · simp at h
    · next hb =>
      obtain rfl : b = cr := by simpa using hb
      exact ⟨_,_,.dataCr hphase ⟨ho,hm⟩⟩
  | dataLf =>
    rw [metadata,if_neg (by omega)] at h
    simp only [hphase] at h
    split at h
    · simp at h
    · next hb =>
      obtain rfl : b = lf := by simpa using hb
      exact ⟨_,_,.dataLf hphase ⟨ho,hm⟩⟩
  | sizeLine =>
    rw [metadata_sizeLine b hphase hm] at h
    rcases lineByte_inv h with ⟨hl,rfl,d1,hf⟩ | ⟨hl,rfl⟩ | ⟨hl,hb,hs⟩
    · obtain ⟨size,hs,hmax⟩ := finishLine_size_inv (d := d.counted) hphase hf
      exact ⟨_,_,.sizeEnd hphase ⟨ho,hm⟩ hl hs hmax⟩
    · exact ⟨_,_,.sizeCr hphase ⟨ho,hm⟩ hl⟩
    · exact ⟨_,_,.sizeByte hphase ⟨ho,hm⟩ hl hb (by simpa [counted,hphase] using hs)⟩
  | trailers =>
    have ht : d.trailerBytes < d.limits.maxTrailerBytes := by
      by_contra ht
      rw [metadata,if_neg (by omega)] at h
      simp only [hphase] at h
      rw [if_pos (by omega)] at h
      simp at h
    rw [metadata_trailers b hphase hm ht] at h
    rcases lineByte_inv h with ⟨hl,rfl,d1,hf⟩ | ⟨hl,rfl⟩ | ⟨hl,hb,hs⟩
    · rcases finishLine_trailer_inv (d := d.countedTrailer) hphase hf with hline | ⟨hline,hc,htrailer⟩
      · exact ⟨_,_,.bodyEnd hphase ⟨⟨ho,hm⟩,ht⟩ hl hline⟩
      · exact ⟨_,_,.trailerEnd hphase ⟨⟨ho,hm⟩,ht⟩ hl hline hc htrailer⟩
    · exact ⟨_,_,.trailerCr hphase ⟨⟨ho,hm⟩,ht⟩ hl⟩
    · exact ⟨_,_,.trailerByte hphase ⟨⟨ho,hm⟩,ht⟩ hl hb
        (by simpa [countedTrailer,counted,hphase] using hs)⟩

/-- A step that leaves no failure is one of the listed steps. -/
theorem step_of_ok {d : HttpBodyDecoder} {b : Byte} (hr : machine.halted d = false)
    (hf : (machine.step d b).1.failure = none) :
    Step d b (machine.step d b).1 (machine.step d b).2 := by
  obtain ⟨hd,-⟩ := reading_iff.mp hr
  have hstep : ∃ d' o, Step d b d' o := by
    change (d.byteStep b).1.failure = none at hf
    unfold byteStep at hf
    split at hf
    · simp at hf
    · next ho =>
      split at hf
      · next hp => exact ⟨_,_,.data b hp (by omega)⟩
      · next hp =>
        split at hf
        · simp at hf
        · next d' hm => exact metadata_inv (by omega) hd hp hm
  obtain ⟨d',o,hs⟩ := hstep
  rw [hs.machine_step]
  exact hs

end SpareNode.Http.HttpBodyDecoder
