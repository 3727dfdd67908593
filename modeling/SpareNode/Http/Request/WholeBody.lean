import SpareNode.Http.Request.ChunkedAcceptance

/-! # Whole bodies

What the body of a request is, said without a decoder, and that the bytes a decoder has read by
the time it is done are one.
-/
namespace SpareNode.Http
open Transducer HttpBodyDecoder

/-- The wire bytes are the head's body with that payload: as many bytes as announced, or a valid
chunked text. -/
def IsBody (head : HttpRequestHead) (limits : HttpRequestParserLimits) (wire payload : Bytes) : Prop :=
  if head.chunked then ∃ t : ChunkedText, t.render = wire ∧ t.Valid limits ∧ t.payload = payload
  else wire.length = head.contentLength ∧ payload = wire

/-- What a decoder of a fixed-length body knows while it has not failed. -/
structure Counted (head : HttpRequestHead) (read emitted : Bytes) (d : HttpBodyDecoder) : Prop where
  fixed : d.chunked = false
  phase : d.phase = .data ∨ d.phase = .done
  ended : d.phase = .done → d.remaining = 0
  count : read.length + d.remaining = head.contentLength
  same : emitted = read
  wellFormed : WellFormed d

variable {head : HttpRequestHead} {limits : HttpRequestParserLimits} {read emitted out : Bytes}
variable {d d' : HttpBodyDecoder}

theorem counted_create (hc : head.chunked = false) (hf : (create head limits).failure = none) :
    Counted head [] [] (create head limits) := by
  have hm : ¬limits.maxBodyBytes < head.contentLength := by
    intro hlarge
    simp [create,hc,hlarge] at hf
  have hphase : (create head limits).phase = if head.contentLength = 0 then .done else .data := by
    simp [create,hc,hm]
  have hrem : (create head limits).remaining = head.contentLength := by simp [create,hc,hm]
  refine ⟨by simp [create,hc,hm],?_,?_,by simp [hrem],rfl,create_wellFormed head limits⟩
  · rw [hphase]
    split
    · exact .inr rfl
    · exact .inl rfl
  · rw [hphase,hrem]
    intro hdone
    split at hdone
    · assumption
    · exact absurd hdone (by decide)

/-- A payload byte of a fixed-length body is counted and passed on. -/
theorem Counted.step (h : Counted head read emitted d) (b : Byte) (hs : machine.halted d = false)
    (hf : (machine.step d b).1.failure = none) :
    Counted head (read ++ [b]) (emitted ++ (machine.step d b).2) (machine.step d b).1 := by
  have hdata : d.phase = .data := h.phase.resolve_right (reading_iff.mp hs).1
  have hpos := h.wellFormed hdata
  have hcount := h.count
  have hstep : machine.step d b = (d.copyData 1,[b]) := by
    change d.byteStep b = _
    change (d.byteStep b).1.failure = none at hf
    unfold byteStep at hf ⊢
    split at hf
    · exact absurd hf (by simp)
    · rename_i hoffset
      rw [if_neg hoffset,if_pos hdata]
  have hnext := byteStep_wellFormed d b h.wellFormed
  change WellFormed (machine.step d b).1 at hnext
  rw [hstep] at hnext ⊢
  refine ⟨h.fixed,?_,?_,?_,by rw [h.same],hnext⟩
  · simp only [copyData,h.fixed,hdata]
    split
    · exact .inr rfl
    · exact .inl rfl
  · simp only [copyData,h.fixed,hdata]
    intro hdone
    split at hdone
    · assumption
    · exact absurd hdone (by decide)
  · simp only [copyData,List.length_append,List.length_singleton]
    omega

theorem Counted.reads (h : Counted head read emitted d) {word : Bytes}
    (hr : machine.Reads d word d' out) (hf : d'.failure = none) :
    Counted head (read ++ word) (emitted ++ out) d' := by
  induction hr generalizing read emitted with
  | nil => simpa using h
  | @cons s t a word out hs hr ih =>
    have hok : (machine.step s a).1.failure = none := by
      by_contra hbad
      have hhalt : machine.halted (machine.step s a).1 = true :=
        halted_iff.mpr (.inr (Option.isSome_iff_ne_none.mpr hbad))
      obtain ⟨-,rfl,-⟩ := hr.halted_nil hhalt
      exact hbad hf
    have hnext := ih (h.step a hs hok) hf
    rwa [List.append_assoc,List.append_assoc,List.singleton_append] at hnext

/-- A decoder never recovers from the failure that it was created with. -/
theorem reads_create_failure (hr : machine.Reads (create head limits) read d emitted)
    (hf : d.failure = none) : (create head limits).failure = none := by
  by_contra hbad
  have hhalt : machine.halted (create head limits) = true :=
    halted_iff.mpr (.inr (Option.isSome_iff_ne_none.mpr hbad))
  obtain ⟨-,rfl,-⟩ := hr.halted_nil hhalt
  exact hbad hf

/-- What a decoder has read by the time it is complete is a whole body. -/
theorem isBody_of_complete (hr : machine.Reads (create head limits) read d emitted)
    (hcomplete : d.complete = true) : IsBody head limits read emitted := by
  obtain ⟨hdone,hf⟩ := complete_iff.mp hcomplete
  unfold IsBody
  split
  · rename_i hc
    have hparsed := (parsed_create limits hc).reads hr hf
    exact (hparsed.text hdone).2
  · rename_i hc
    have hcounted := (counted_create (Bool.eq_false_iff.mpr hc) (reads_create_failure hr hf)).reads hr hf
    have hcount := hcounted.count
    have hrem := hcounted.ended hdone
    simp only [List.nil_append] at hcount hcounted
    exact ⟨by omega,hcounted.same⟩

end SpareNode.Http
