import SpareNode.Http.Request.BodyDecoder
import SpareNode.Library.Transducer

/-! # The decoder as a machine that reads single bytes

`machine` steps on one wire byte at a time. It halts at the body boundary and at a
failure, which it keeps in its state. One call of `feed` is a partial run of this
machine: bulk copies are steps of the data phase, and a full output span ends the
run early without leaving the state it would otherwise pass through.
-/
namespace SpareNode.Http.HttpBodyDecoder
open Transducer

/-- One byte of input, with the payload it yields. -/
def byteStep (d : HttpBodyDecoder) (byte : Byte) : HttpBodyDecoder × Bytes :=
  if sizeMax ≤ d.offset then
    ({ d with failure := some (d.error .chunkMetadataTooLarge) },[])
  else if d.phase = .data then (d.copyData 1,[byte])
  else
    match d.metadata byte with
    | (d,some e) => ({ d with failure := some e },[])
    | (d,none) => ({ d with offset := d.offset + 1 },[])

def machine : Transducer HttpBodyDecoder Byte Byte where
  halted d := d.phase == .done || d.failure.isSome
  step := byteStep

/-- The payload counter of a data phase is never zero between two bytes. -/
def WellFormed (d : HttpBodyDecoder) : Prop := d.phase = .data → 0 < d.remaining

theorem reading_iff {d : HttpBodyDecoder} :
    machine.halted d = false ↔ d.phase ≠ .done ∧ d.failure = none := by
  simp [machine]

theorem halted_iff {d : HttpBodyDecoder} :
    machine.halted d = true ↔ d.phase = .done ∨ d.failure.isSome = true := by
  simp [machine]

theorem complete_iff {d : HttpBodyDecoder} :
    d.complete = true ↔ d.phase = .done ∧ d.failure = none := by
  simp [complete]

theorem create_wellFormed (head : HttpRequestHead) (limits : HttpRequestParserLimits) :
    WellFormed (create head limits) := by
  intro h
  unfold create at h ⊢
  dsimp only at h ⊢
  split <;> grind

theorem create_offset (head : HttpRequestHead) (limits : HttpRequestParserLimits) :
    (create head limits).offset = head.consumedBytes := by
  unfold create
  dsimp only
  split <;> rfl

/-- What a framing function may change: lines, their counters, the phase and the
size of the next chunk. Its errors carry the current offset. -/
structure Framed (d : HttpBodyDecoder) (r : HttpBodyDecoder × Option HttpRequestParseError) :
    Prop where
  offset : r.1.offset = d.offset
  failure : r.1.failure = d.failure
  limits : r.1.limits = d.limits
  chunked : r.1.chunked = d.chunked
  decoded : r.1.decoded = d.decoded
  wellFormed : d.phase ≠ .data → WellFormed r.1
  errorOffset : ∀ e, r.2 = some e → e.byteOffset = d.offset

/-- A change of lines and counters only, with or without an error. -/
theorem Framed.same {d d' : HttpBodyDecoder} (e : Option HttpRequestParseErrorCode)
    (h : d'.offset = d.offset ∧ d'.failure = d.failure ∧ d'.limits = d.limits ∧
      d'.chunked = d.chunked ∧ d'.decoded = d.decoded ∧
      (d'.phase = .data → d.phase = .data)) : Framed d (d',e.map d.error) where
  offset := h.1
  failure := h.2.1
  limits := h.2.2.1
  chunked := h.2.2.2.1
  decoded := h.2.2.2.2.1
  wellFormed hp hd := absurd (h.2.2.2.2.2 hd) hp
  errorOffset e' he := by
    cases e with
    | none => simp at he
    | some code =>
      simp only [Option.map_some,Option.some.injEq] at he
      rw [← he]
      rfl

theorem Framed.trans {d d' : HttpBodyDecoder} {r : HttpBodyDecoder × Option HttpRequestParseError}
    (h : Framed d (d',none)) (k : Framed d' r) (hp : d'.phase = d.phase) : Framed d r where
  offset := k.offset.trans h.offset
  failure := k.failure.trans h.failure
  limits := k.limits.trans h.limits
  chunked := k.chunked.trans h.chunked
  decoded := k.decoded.trans h.decoded
  wellFormed hd := k.wellFormed (by rwa [hp])
  errorOffset e he := (k.errorOffset e he).trans h.offset

theorem finishLine_framed (d : HttpBodyDecoder) : Framed d d.finishLine := by
  unfold finishLine
  split
  · next hp =>
    split
    · exact Framed.same none (by simp)
    · split
      · exact Framed.same (some _) (by simp)
      · dsimp only
        split
        · exact Framed.same none (by simp)
        · exact Framed.same (some .invalidTrailer) (by simp)
  · split
    · exact Framed.same (some _) (by simp)
    · next size extensions _ =>
      split
      · exact Framed.same (some _) (by simp)
      · split
        · exact Framed.same (some _) (by simp)
        · refine ⟨rfl,rfl,rfl,rfl,rfl,?_,by simp⟩
          intro _ hd
          dsimp only at hd ⊢
          split at hd
          · simp at hd
          · omega

theorem lineByte_framed (d : HttpBodyDecoder) (byte : Byte) : Framed d (d.lineByte byte) := by
  unfold lineByte
  split
  · split
    · exact Framed.same (some _) (by simp)
    · have h := finishLine_framed d
      exact ⟨h.offset,h.failure,h.limits,h.chunked,h.decoded,h.wellFormed,h.errorOffset⟩
  · split
    · exact Framed.same none (by simp)
    · split
      · exact Framed.same (some _) (by simp)
      · generalize (if d.phase = .trailers then _ else _) = limit
        dsimp only
        split
        · exact Framed.same (some _) (by simp)
        · exact Framed.same none (by simp)

theorem metadata_framed (d : HttpBodyDecoder) (byte : Byte) : Framed d (d.metadata byte) := by
  have hcount : Framed d ({ d with metadataBytes := d.metadataBytes + 1 },none) :=
    Framed.same none (by simp)
  unfold metadata
  split
  · exact Framed.same (some _) (by simp)
  · dsimp only
    split
    · split
      · exact Framed.same (some .malformedChunk) (by simp)
      · exact Framed.same none (by simp)
    · split
      · exact Framed.same (some .malformedChunk) (by simp)
      · exact Framed.same none (by simp)
    · split
      · exact Framed.same (some .trailersTooLarge) (by simp)
      · exact (Framed.same none (by simp)).trans (lineByte_framed _ byte) rfl
    · exact hcount.trans (lineByte_framed _ byte) rfl

/-- A step either fails at the current offset, leaving everything but counters of
the failed line, or moves one byte on. -/
theorem byteStep_spec (d : HttpBodyDecoder) (byte : Byte) (hr : machine.halted d = false) :
    (∃ e, (d.byteStep byte).1.failure = some e ∧ e.byteOffset = d.offset ∧
      (d.byteStep byte).2 = []) ∨
    ((d.byteStep byte).1.failure = none ∧ (d.byteStep byte).1.offset = d.offset + 1) := by
  obtain ⟨-,hf⟩ := reading_iff.mp hr
  have hm := metadata_framed d byte
  unfold byteStep
  split
  · exact Or.inl ⟨_,rfl,rfl,rfl⟩
  · split
    · exact Or.inr ⟨hf,rfl⟩
    · split
      · next d' e he =>
        rw [he] at hm
        exact Or.inl ⟨e,rfl,hm.errorOffset e rfl,rfl⟩
      · next d' he =>
        rw [he] at hm
        exact Or.inr ⟨hm.failure.trans hf,congrArg (· + 1) hm.offset⟩

theorem byteStep_wellFormed (d : HttpBodyDecoder) (byte : Byte) (hd : WellFormed d) :
    WellFormed (d.byteStep byte).1 := by
  have hm := metadata_framed d byte
  unfold byteStep
  split
  · exact hd
  · split
    · next hp =>
      intro h
      simp only [copyData] at h ⊢
      have := hd hp
      split at h
      · split at h <;> simp at h
      · omega
    · next hp =>
      split
      · next d' e he =>
        rw [he] at hm
        exact hm.wellFormed hp
      · next d' he =>
        rw [he] at hm
        exact hm.wellFormed hp

theorem reads_wellFormed {d d' : HttpBodyDecoder} {u o : Bytes} (h : machine.Reads d u d' o)
    (hd : WellFormed d) : WellFormed d' :=
  h.invariant (fun s a _ hs => byteStep_wellFormed s a hs) hd

/-- Along a run that has not failed the offset counts the bytes read. -/
theorem reads_offset {d d' : HttpBodyDecoder} {u o : Bytes} (h : machine.Reads d u d' o)
    (hf : d'.failure = none) : d'.offset = d.offset + u.length := by
  induction h with
  | nil => simp
  | @cons s t a word out hs h ih =>
    rcases byteStep_spec s a hs with ⟨e,he,-⟩ | ⟨-,ho⟩
    · have hstop := h.halted_nil (halted_iff.mpr (Or.inr (by
        rw [show (machine.step s a).1 = (s.byteStep a).1 from rfl,he]; rfl)))
      rw [hstop.2.1,show (machine.step s a).1 = (s.byteStep a).1 from rfl,he] at hf
      simp at hf
    · rw [ih hf,show (machine.step s a).1 = (s.byteStep a).1 from rfl,ho,List.length_cons]
      omega

theorem reads_output_length {d d' : HttpBodyDecoder} {u o : Bytes} (h : machine.Reads d u d' o) :
    o.length ≤ u.length := by
  induction h with
  | nil => simp
  | @cons s t a word out hs h ih =>
    have hone : (machine.step s a).2.length ≤ 1 := by
      change (s.byteStep a).2.length ≤ 1
      unfold byteStep
      split
      · simp
      · split
        · simp
        · split <;> simp
    simp only [List.length_append,List.length_cons]
    omega

/-- Copying several payload bytes at once is copying them one by one. -/
theorem copyData_reads (d : HttpBodyDecoder) (u : Bytes) (hp : d.phase = .data)
    (hf : d.failure = none) (hu : u ≠ []) (hr : u.length ≤ d.remaining)
    (ho : d.offset + u.length ≤ sizeMax) : machine.Reads d u (d.copyData u.length) u := by
  induction u generalizing d with
  | nil => exact absurd rfl hu
  | cons a u ih =>
    simp only [List.length_cons] at hr ho
    have hread : machine.halted d = false := reading_iff.mpr ⟨by simp [hp],hf⟩
    have hstep : machine.step d a = (d.copyData 1,[a]) := by
      change d.byteStep a = _
      rw [byteStep,if_neg (by omega),if_pos hp]
    cases u with
    | nil => simpa [hstep] using Reads.single a hread
    | cons b u =>
      have hone : d.remaining - 1 ≠ 0 := by
        simp only [List.length_cons] at hr
        omega
      have hp' : (d.copyData 1).phase = .data := by simp [copyData,hone,hp]
      have hrest := ih (d.copyData 1) hp' (by simpa [copyData] using hf) (by simp)
        (by simp only [copyData,List.length_cons] at hr ⊢; omega)
        (by simp only [copyData,List.length_cons] at ho ⊢; omega)
      have hjoin : (d.copyData 1).copyData (b :: u).length = d.copyData (a :: b :: u).length := by
        simp only [copyData,List.length_cons]
        grind
      rw [hjoin] at hrest
      have hall := Reads.cons (T := machine) (a := a) hread (by rw [hstep]; exact hrest)
      rwa [hstep] at hall

/-- The bulk copy of one round, as a partial run within the room it has. -/
theorem copyCount_reads {d : HttpBodyDecoder} {input : Bytes} (room : ℕ) (hd : WellFormed d)
    (hf : d.failure = none) (hp : d.phase = .data) (hi : input ≠ []) (hr : 0 < room)
    (ho : d.offset < sizeMax) :
    machine.Reads d (input.take (d.copyCount input.length room))
      (d.copyData (d.copyCount input.length room)) (input.take (d.copyCount input.length room)) ∧
    (input.take (d.copyCount input.length room)).length = d.copyCount input.length room ∧
    d.copyCount input.length room ≤ room := by
  have hrem := hd hp
  have hlen : 0 < input.length := List.length_pos_iff.mpr hi
  have hcount : 0 < d.copyCount input.length room := by
    unfold copyCount
    omega
  have htake : (input.take (d.copyCount input.length room)).length =
      d.copyCount input.length room := by
    rw [List.length_take]
    unfold copyCount
    omega
  refine ⟨?_,htake,by unfold copyCount; omega⟩
  have h := copyData_reads d (input.take (d.copyCount input.length room)) hp hf
    (List.length_pos_iff.mp (by omega)) (by rw [htake]; unfold copyCount; omega)
    (by rw [htake]; unfold copyCount; omega)
  rwa [htake] at h

/-- A call that reports progress is a partial run that failed nowhere. It stops at
the end of the input, at the body boundary or in front of a payload byte that has
no room. -/
theorem feedLoop_ok {d d' : HttpBodyDecoder} {input output out : Bytes} {capacity consumed c : ℕ}
    (hd : WellFormed d) (hf : d.failure = none)
    (h : d.feedLoop input capacity consumed output = (d',.ok (c,out))) :
    ∃ u v o, input = u ++ v ∧ c = consumed + u.length ∧ out = output ++ o ∧
      machine.Reads d u d' o ∧ d'.failure = none ∧
      (v = [] ∨ d'.phase = .done ∨ (d'.phase = .data ∧ capacity ≤ out.length)) ∧
      (output.length ≤ capacity → out.length ≤ capacity) := by
  fun_induction feedLoop d input capacity consumed output with
  | case1 d consumed output =>
    cases h
    exact ⟨[],[],[],rfl,rfl,by simp,Reads.nil _,hf,Or.inl rfl,id⟩
  | case2 d consumed output byte rest hp =>
    cases h
    exact ⟨[],byte :: rest,[],rfl,rfl,by simp,Reads.nil _,hf,Or.inr (Or.inl hp),id⟩
  | case3 => simp at h
  | case4 d consumed output byte rest hdone ho hp hfull =>
    cases h
    exact ⟨[],byte :: rest,[],rfl,rfl,by simp,Reads.nil _,hf,Or.inr (Or.inr ⟨hp,hfull⟩),id⟩
  | case5 d consumed output byte rest hdone ho hp hroom count ih =>
    obtain ⟨hcopy,hlen,hcap⟩ := copyCount_reads (capacity - output.length) hd hf hp
      (List.cons_ne_nil byte rest) (by omega) (by omega)
    obtain ⟨u,v,o,hi,rfl,rfl,hreads,hf',hstop,hbound⟩ :=
      ih (reads_wellFormed hcopy hd) (by simpa [copyData] using hf) h
    refine ⟨(byte :: rest).take count ++ u,v,(byte :: rest).take count ++ o,?_,?_,?_,
      hcopy.trans hreads,hf',hstop,?_⟩
    · rw [List.append_assoc,← hi,List.take_append_drop]
    · rw [List.length_append,hlen]
      omega
    · rw [List.append_assoc]
    · intro _
      apply hbound
      rw [List.length_append,hlen]
      omega
  | case6 => simp at h
  | case7 d consumed output byte rest hdone ho hp d1 hm ih =>
    have hread : machine.halted d = false := reading_iff.mpr ⟨hdone,hf⟩
    have hstep : machine.step d byte = ({ d1 with offset := d1.offset + 1 },[]) := by
      change d.byteStep byte = _
      rw [byteStep,if_neg ho,if_neg hp,hm]
    have hone := Reads.single (T := machine) byte hread
    rw [hstep] at hone
    have hfr := metadata_framed d byte
    rw [hm] at hfr
    obtain ⟨u,v,o,rfl,rfl,rfl,hreads,hf',hstop,hbound⟩ :=
      ih (reads_wellFormed hone hd) (hfr.failure.trans hf) h
    exact ⟨byte :: u,v,o,rfl,by simp only [List.length_cons]; omega,rfl,hone.trans hreads,hf',hstop,
      hbound⟩

/-- A call that fails is a partial run up to the byte whose step fails. -/
theorem feedLoop_error {d d' : HttpBodyDecoder} {input output : Bytes} {capacity consumed : ℕ}
    {e : HttpRequestParseError} (hd : WellFormed d) (hf : d.failure = none)
    (h : d.feedLoop input capacity consumed output = (d',.error e)) :
    ∃ u b v o m, input = u ++ b :: v ∧ machine.Reads d u m o ∧ machine.halted m = false ∧
      machine.step m b = (d',[]) ∧ d'.failure = some e ∧ e.byteOffset = m.offset := by
  fun_induction feedLoop d input capacity consumed output with
  | case1 => simp at h
  | case2 => simp at h
  | case3 d consumed output byte rest hdone ho =>
    cases h
    refine ⟨[],byte,rest,[],d,rfl,Reads.nil _,reading_iff.mpr ⟨hdone,hf⟩,?_,rfl,rfl⟩
    change d.byteStep byte = _
    rw [byteStep,if_pos ho]
  | case4 => simp at h
  | case5 d consumed output byte rest hdone ho hp hroom count ih =>
    obtain ⟨hcopy,-,-⟩ := copyCount_reads (capacity - output.length) hd hf hp
      (List.cons_ne_nil byte rest) (by omega) (by omega)
    obtain ⟨u,b,v,o,m,hi,hreads,hm⟩ :=
      ih (reads_wellFormed hcopy hd) (by simpa [copyData] using hf) h
    refine ⟨(byte :: rest).take count ++ u,b,v,_,m,?_,hcopy.trans hreads,hm⟩
    rw [List.append_assoc,← hi,List.take_append_drop]
  | case6 d consumed output byte rest hdone ho hp d1 e1 hm =>
    cases h
    refine ⟨[],byte,rest,[],d,rfl,Reads.nil _,reading_iff.mpr ⟨hdone,hf⟩,?_,rfl,?_⟩
    · change d.byteStep byte = _
      rw [byteStep,if_neg ho,if_neg hp,hm]
    · have hfr := metadata_framed d byte
      rw [hm] at hfr
      exact hfr.errorOffset e rfl
  | case7 d consumed output byte rest hdone ho hp d1 hm ih =>
    have hread : machine.halted d = false := reading_iff.mpr ⟨hdone,hf⟩
    have hstep : machine.step d byte = ({ d1 with offset := d1.offset + 1 },[]) := by
      change d.byteStep byte = _
      rw [byteStep,if_neg ho,if_neg hp,hm]
    have hone := Reads.single (T := machine) byte hread
    rw [hstep] at hone
    have hfr := metadata_framed d byte
    rw [hm] at hfr
    obtain ⟨u,b,v,o,m,rfl,hreads,hm⟩ := ih (reads_wellFormed hone hd) (hfr.failure.trans hf) h
    exact ⟨byte :: u,b,v,_,m,rfl,hone.trans hreads,hm⟩

theorem feed_ok {d d' : HttpBodyDecoder} {input : Bytes} {capacity : ℕ}
    {p : HttpBodyDecodeProgress} (hd : WellFormed d) (h : d.feed input capacity = (d',.ok p)) :
    ∃ u v, input = u ++ v ∧ p.consumed = u.length ∧ machine.Reads d u d' p.output ∧
      d.failure = none ∧ d'.failure = none ∧ p.complete = d'.complete ∧
      (v = [] ∨ d'.phase = .done ∨ (d'.phase = .data ∧ capacity ≤ p.output.length)) ∧
      p.output.length ≤ capacity := by
  unfold feed at h
  split at h
  · simp at h
  · next hf =>
    split at h
    · simp at h
    · next d1 c out hloop =>
      simp only [Prod.mk.injEq,Except.ok.injEq] at h
      obtain ⟨rfl,rfl⟩ := h
      obtain ⟨u,v,o,hi,hc,ho,hr,hf',hstop,hcap⟩ := feedLoop_ok hd hf hloop
      rw [Nat.zero_add] at hc
      rw [List.nil_append] at ho
      subst ho
      exact ⟨u,v,hi,hc,hr,hf,hf',rfl,hstop,hcap (by simp)⟩

theorem feed_error {d d' : HttpBodyDecoder} {input : Bytes} {capacity : ℕ}
    {e : HttpRequestParseError} (hd : WellFormed d) (h : d.feed input capacity = (d',.error e)) :
    (d.failure = some e ∧ d' = d) ∨
    (d.failure = none ∧ ∃ u b v o m, input = u ++ b :: v ∧ machine.Reads d u m o ∧
      machine.halted m = false ∧ machine.step m b = (d',[]) ∧ d'.failure = some e ∧
      e.byteOffset = m.offset) := by
  unfold feed at h
  split at h
  · next e' hf =>
    simp only [Prod.mk.injEq,Except.error.injEq] at h
    obtain ⟨rfl,rfl⟩ := h
    exact Or.inl ⟨hf,rfl⟩
  · next hf =>
    split at h
    · next d1 e1 hloop =>
      simp only [Prod.mk.injEq,Except.error.injEq] at h
      obtain ⟨rfl,rfl⟩ := h
      exact Or.inr ⟨hf,feedLoop_error hd hf hloop⟩
    · simp at h

/-- A failed call leaves the decoder where the byte machine fails. -/
theorem feed_error_run {d d' : HttpBodyDecoder} {input : Bytes} {capacity : ℕ}
    {e : HttpRequestParseError} (hd : WellFormed d) (hf : d.failure = none)
    (h : d.feed input capacity = (d',.error e)) :
    (machine.run d input).1 = d' ∧ d'.failure = some e := by
  rcases feed_error hd h with ⟨he,-⟩ | ⟨-,u,b,v,o,m,rfl,hr,hm,hs,he,-⟩
  · simp [hf] at he
  · have hall := hr.trans (Reads.single b hm)
    rw [hs,List.append_nil] at hall
    have hrun := hall.run_eq (v := v) (Or.inl (halted_iff.mpr (Or.inr (by rw [he]; rfl))))
    rw [List.append_assoc,List.singleton_append] at hrun
    exact ⟨by rw [hrun],he⟩

end SpareNode.Http.HttpBodyDecoder
