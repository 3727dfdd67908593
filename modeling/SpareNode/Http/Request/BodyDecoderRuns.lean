import SpareNode.Http.Request.BodyDecoderMachine

/-! # Runs of the decoder under fragmentation and backpressure

A caller presents the unconsumed tail again before new wire bytes and offers some
output capacity with each call. Whatever fragments and capacities it picks, the
calls compose to one partial run of the byte machine, so the outcome of a run
that went as far as it could depends on the wire bytes only.
-/
namespace SpareNode.Http
open Transducer HttpBodyDecoder

/-- One call of `feed`: wire bytes that arrived since the last call, and the size
of the output span. -/
structure Delivery where
  fragment : Bytes
  capacity : ℕ

structure DecodeRun where
  decoder : HttpBodyDecoder
  pending : Bytes := []
  consumed : ℕ := 0
  payload : Bytes := []

def DecodeRun.deliver (r : DecodeRun) (x : Delivery) : DecodeRun :=
  match r.decoder.feed (r.pending ++ x.fragment) x.capacity with
  | (d,.error _) => { r with decoder := d, pending := r.pending ++ x.fragment }
  | (d,.ok p) =>
    { decoder := d
      pending := (r.pending ++ x.fragment).drop p.consumed
      consumed := r.consumed + p.consumed
      payload := r.payload ++ p.output }

def decodeRun (head : HttpRequestHead) (limits : HttpRequestParserLimits) (xs : List Delivery) :
    DecodeRun :=
  xs.foldl DecodeRun.deliver { decoder := create head limits }

def delivered (xs : List Delivery) : Bytes := (xs.map Delivery.fragment).flatten

/-- The calls deliver an initial part of the wire with room for output each time,
and go on until the wire is used up, the body is complete or decoding fails. -/
def Finishes (head : HttpRequestHead) (limits : HttpRequestParserLimits) (wire : Bytes)
    (xs : List Delivery) : Prop :=
  (∀ x ∈ xs, 1 ≤ x.capacity) ∧
  ∃ rest, wire = delivered xs ++ rest ∧
    ((decodeRun head limits xs).decoder.failure.isSome = true ∨
      (decodeRun head limits xs).decoder.complete = true ∨
      (rest = [] ∧ (decodeRun head limits xs).pending = []))

/-- What the calls so far did, in terms of single bytes. -/
inductive RunState (start : HttpBodyDecoder) (wire : Bytes) (r : DecodeRun) : Prop
  | reading {u : Bytes} (hw : wire = u ++ r.pending) (hc : r.consumed = u.length)
      (hr : machine.Reads start u r.decoder r.payload) (hf : r.decoder.failure = none)
  | failed {u v o : Bytes} {b : Byte} {m : HttpBodyDecoder} {e : HttpRequestParseError}
      (hw : wire = u ++ b :: v) (hr : machine.Reads start u m o) (hm : machine.halted m = false)
      (hs : machine.step m b = (r.decoder,[])) (he : r.decoder.failure = some e)
      (ho : e.byteOffset = m.offset) (hp : r.payload <+: o) (hc : r.consumed ≤ u.length)
  | rejected {e : HttpRequestParseError} (hs : r.decoder = start) (he : start.failure = some e)
      (hp : r.payload = []) (hc : r.consumed = 0)

/-- A failure is sticky: further calls change nothing but the bytes kept aside. -/
theorem deliver_of_failure {r : DecodeRun} {e : HttpRequestParseError} (x : Delivery)
    (he : r.decoder.failure = some e) :
    r.deliver x = { r with pending := r.pending ++ x.fragment } := by
  have hfeed : r.decoder.feed (r.pending ++ x.fragment) x.capacity = (r.decoder,.error e) := by
    rw [feed,he]
  rw [DecodeRun.deliver,hfeed]

theorem RunState.deliver {start : HttpBodyDecoder} {wire : Bytes} {r : DecodeRun}
    (hd : WellFormed start) (h : RunState start wire r) (x : Delivery) :
    RunState start (wire ++ x.fragment) (r.deliver x) := by
  cases h with
  | @reading u hw hc hr hf =>
    unfold DecodeRun.deliver
    split
    · next d e hfeed =>
      rcases feed_error (reads_wellFormed hr hd) hfeed with ⟨hbad,-⟩ | ⟨-,u',b,v,o,m,hi,hr',hm⟩
      · simp [hf] at hbad
      · refine .failed (u := u ++ u') (b := b) (v := v) ?_ (hr.trans hr') hm.1 hm.2.1 hm.2.2.1
          hm.2.2.2 (List.prefix_append _ _) ?_
        · rw [hw,List.append_assoc,List.append_assoc,hi]
        · simp only [List.length_append]
          omega
    · next d p hfeed =>
      obtain ⟨u',v,hi,hc',hr',-,hf',-⟩ := feed_ok (reads_wellFormed hr hd) hfeed
      have hdrop : (r.pending ++ x.fragment).drop p.consumed = v := by
        rw [hi,hc',List.drop_left]
      refine .reading (u := u ++ u') ?_ ?_ (hr.trans hr') hf'
      · dsimp only
        rw [hdrop,hw,List.append_assoc,List.append_assoc,hi]
      · simp only [List.length_append]
        omega
  | @failed u v o b m e hw hr hm hs he ho hp hc =>
    have hstay := deliver_of_failure x he
    refine .failed (u := u) (b := b) (v := v ++ x.fragment) (e := e) ?_ hr hm ?_ ?_ ho ?_ ?_
    · rw [hw,List.append_assoc,List.cons_append]
    all_goals rw [hstay]
    · exact hs
    · exact he
    · exact hp
    · exact hc
  | @rejected e hs he hp hc =>
    have hstay := deliver_of_failure x (hs ▸ he)
    refine .rejected (e := e) ?_ he ?_ ?_
    all_goals rw [hstay]
    · exact hs
    · exact hp
    · exact hc

theorem runState_foldl {start : HttpBodyDecoder} (hd : WellFormed start) (xs : List Delivery)
    {wire : Bytes} {r : DecodeRun} (h : RunState start wire r) :
    RunState start (wire ++ delivered xs) (xs.foldl DecodeRun.deliver r) := by
  induction xs generalizing wire r with
  | nil => simpa [delivered] using h
  | cons x xs ih => simpa [delivered,List.append_assoc] using ih (h.deliver hd x)

/-- Every list of calls is a partial run of the byte machine. -/
theorem runState_decodeRun (head : HttpRequestHead) (limits : HttpRequestParserLimits)
    (xs : List Delivery) :
    RunState (create head limits) (delivered xs) (decodeRun head limits xs) := by
  have hinit : RunState (create head limits) [] { decoder := create head limits } := by
    cases hf : (create head limits).failure with
    | none => exact .reading (u := []) rfl rfl (Reads.nil _) hf
    | some e => exact .rejected rfl hf rfl rfl
  exact runState_foldl (create_wellFormed head limits) xs hinit

/-- The run of the byte machine on all of the wire, which every finished run computes. -/
theorem finishes_run {head : HttpRequestHead} {limits : HttpRequestParserLimits} {wire : Bytes}
    {xs : List Delivery} (h : Finishes head limits wire xs) :
    (decodeRun head limits xs).decoder = (machine.run (create head limits) wire).1 ∧
    ((decodeRun head limits xs).decoder.failure = none →
      (decodeRun head limits xs).payload = (machine.run (create head limits) wire).2.2 ∧
      (decodeRun head limits xs).consumed =
        wire.length - (machine.run (create head limits) wire).2.1.length) ∧
    (decodeRun head limits xs).payload <+: (machine.run (create head limits) wire).2.2 := by
  obtain ⟨-,rest,rfl,hend⟩ := h
  cases runState_decodeRun head limits xs with
  | @reading u hw hc hr hf =>
    have hstop : machine.halted (decodeRun head limits xs).decoder = true ∨
        (decodeRun head limits xs).pending ++ rest = [] := by
      rcases hend with hend | hend | ⟨hr,hp⟩
      · simp [hf] at hend
      · exact Or.inl (halted_iff.mpr (Or.inl (complete_iff.mp hend).1))
      · exact Or.inr (by simp [hr,hp])
    have hrun := hr.run_eq hstop
    rw [← List.append_assoc,← hw] at hrun
    rw [hrun]
    refine ⟨rfl,fun _ => ⟨rfl,?_⟩,List.prefix_refl _⟩
    rw [hw]
    simp only [List.length_append]
    omega
  | @failed u v o b m e hw hr hm hs he ho hp hc =>
    have hall := hr.trans (Reads.single b hm)
    rw [hs,List.append_nil] at hall
    have hrun := hall.run_eq (v := v ++ rest)
      (Or.inl (halted_iff.mpr (Or.inr (by rw [he]; rfl))))
    have hwire : u ++ [b] ++ (v ++ rest) = delivered xs ++ rest := by
      rw [hw]
      simp
    rw [hwire] at hrun
    rw [hrun]
    exact ⟨rfl,fun hn => absurd (he.symm.trans hn) (by simp),hp⟩
  | @rejected e hs he hp hc =>
    have hstop : machine.halted (create head limits) = true :=
      halted_iff.mpr (Or.inr (by rw [he]; rfl))
    have hrun := (Reads.nil (T := machine) (create head limits)).run_eq
      (v := delivered xs ++ rest) (Or.inl hstop)
    rw [List.nil_append] at hrun
    rw [hrun,hs,hp]
    exact ⟨rfl,fun hn => absurd (he.symm.trans hn) (by simp),List.prefix_refl _⟩

/-- One call on all of the bytes, with more room than it can fill. -/
def decodeOnce (head : HttpRequestHead) (limits : HttpRequestParserLimits) (wire : Bytes) :
    DecodeRun :=
  decodeRun head limits [⟨wire,wire.length + 1⟩]

/-- One call with more room than input has nowhere to stop early. -/
theorem finishes_single (head : HttpRequestHead) (limits : HttpRequestParserLimits) (wire : Bytes) :
    Finishes head limits wire [⟨wire,wire.length + 1⟩] := by
  refine ⟨by simp,[],by simp [delivered],?_⟩
  simp only [decodeRun,List.foldl_cons,List.foldl_nil,DecodeRun.deliver,List.nil_append]
  split
  · next d e hfeed =>
    rcases feed_error (create_wellFormed head limits) hfeed with ⟨he,rfl⟩ | ⟨-,_,_,_,_,_,-,-,-,-,he,-⟩
    · exact Or.inl (by simp [he])
    · exact Or.inl (by simp [he])
  · next d p hfeed =>
    obtain ⟨u,v,hi,hc,hr,hf,hf',-,hstop,hcap⟩ := feed_ok (create_wellFormed head limits) hfeed
    have hout := reads_output_length hr
    rcases hstop with rfl | hdone | ⟨-,hfull⟩
    · right; right
      rw [hi,hc]
      simp
    · exact Or.inr (Or.inl (complete_iff.mpr ⟨hdone,hf'⟩))
    · have hle := congrArg List.length hi
      simp only [List.length_append] at hle
      omega

theorem decodeOnce_decoder (head : HttpRequestHead) (limits : HttpRequestParserLimits)
    (wire : Bytes) :
    (decodeOnce head limits wire).decoder = (machine.run (create head limits) wire).1 :=
  (finishes_run (finishes_single head limits wire)).1

/-- What a failed run reported is a part of the data in front of the error offset. -/
theorem failed_payload {head : HttpRequestHead} {limits : HttpRequestParserLimits} {wire : Bytes}
    {xs : List Delivery} {e : HttpRequestParseError} (hw : delivered xs <+: wire)
    (he : (decodeRun head limits xs).decoder.failure = some e) :
    (decodeRun head limits xs).payload <+:
      (decodeOnce head limits (wire.take (e.byteOffset - head.consumedBytes))).payload := by
  obtain ⟨rest,rfl⟩ := hw
  cases runState_decodeRun head limits xs with
  | reading _ _ _ hf => simp [he] at hf
  | @failed u v o b m e' hd hr hm hs he' ho hp hc =>
    obtain rfl : e = e' := Option.some.inj (he.symm.trans he')
    have hoff := reads_offset hr (reading_iff.mp hm).2
    rw [create_offset,← ho] at hoff
    have htake : (delivered xs ++ rest).take (e.byteOffset - head.consumedBytes) = u := by
      rw [hd,hoff,Nat.add_sub_cancel_left,List.append_assoc,List.take_left]
    have hrun := hr.run_eq (v := []) (Or.inr rfl)
    rw [List.append_nil] at hrun
    obtain ⟨hdec,hpay,-⟩ := finishes_run (finishes_single head limits u)
    rw [hrun] at hdec hpay
    rw [htake,decodeOnce,(hpay (hdec ▸ (reading_iff.mp hm).2)).1]
    exact hp
  | rejected _ _ hp _ =>
    rw [hp]
    exact List.nil_prefix

theorem consumed_le_boundary {head : HttpRequestHead} {limits : HttpRequestParserLimits}
    {wire : Bytes} {zs : List Delivery} {n : ℕ} (hw : delivered zs <+: wire)
    (hn : (decodeOnce head limits (wire.take n)).decoder.complete = true) :
    (decodeRun head limits zs).consumed ≤ n := by
  obtain ⟨rest,hrest⟩ := hw
  rw [decodeOnce_decoder] at hn
  have hhalt := halted_iff.mpr (Or.inl (complete_iff.mp hn).1)
  have hlen : (wire.take n).length ≤ n := by simp
  cases runState_decodeRun head limits zs with
  | @reading u hd hc hr hf =>
    have hle := hr.length_le_of_halted (v := (decodeRun head limits zs).pending ++ rest)
      (y := wire.drop n) (by rw [List.take_append_drop,← hrest,hd,List.append_assoc]) hhalt
    omega
  | @failed u v o b m e hd hr hm hs he ho hp hc =>
    have hle := hr.length_le_of_halted (v := b :: v ++ rest)
      (y := wire.drop n) (by rw [List.take_append_drop,← hrest,hd,List.append_assoc]) hhalt
    omega
  | rejected _ _ _ hc => omega

/-- Fragments and output capacities are invisible. Two finished runs on one wire
either fail with one sticky error, having reported part of the data in front of
its offset, or agree on everything; and no run passes the body boundary. -/
theorem decodeRun_independent (head : HttpRequestHead) (limits : HttpRequestParserLimits)
    (wire : Bytes) (xs ys : List Delivery) (hx : Finishes head limits wire xs)
    (hy : Finishes head limits wire ys) :
    ((∃ e, (decodeRun head limits xs).decoder.failure = some e ∧
        (decodeRun head limits ys).decoder.failure = some e ∧
        (decodeRun head limits xs).payload <+:
          (decodeOnce head limits (wire.take (e.byteOffset - head.consumedBytes))).payload ∧
        (decodeRun head limits ys).payload <+:
          (decodeOnce head limits (wire.take (e.byteOffset - head.consumedBytes))).payload) ∨
      ((decodeRun head limits xs).decoder.failure = none ∧
        (decodeRun head limits ys).decoder.failure = none ∧
        (decodeRun head limits xs).consumed = (decodeRun head limits ys).consumed ∧
        (decodeRun head limits xs).payload = (decodeRun head limits ys).payload ∧
        (decodeRun head limits xs).decoder.complete = (decodeRun head limits ys).decoder.complete ∧
        (decodeRun head limits xs).decoder.finish.2 =
          (decodeRun head limits ys).decoder.finish.2)) ∧
    ∀ n zs, delivered zs <+: wire →
      (decodeOnce head limits (wire.take n)).decoder.complete = true →
      (decodeRun head limits zs).consumed ≤ n := by
  refine ⟨?_,fun n zs hz hn => consumed_le_boundary hz hn⟩
  obtain ⟨hdx,hpx,-⟩ := finishes_run hx
  obtain ⟨hdy,hpy,-⟩ := finishes_run hy
  have hsame := hdx.trans hdy.symm
  cases hf : (decodeRun head limits xs).decoder.failure with
  | some e =>
    have hfy : (decodeRun head limits ys).decoder.failure = some e := by rw [← hsame,hf]
    obtain ⟨-,rest,hwx,-⟩ := hx
    obtain ⟨-,rest',hwy,-⟩ := hy
    exact Or.inl ⟨e,rfl,hfy,failed_payload ⟨rest,hwx.symm⟩ hf,failed_payload ⟨rest',hwy.symm⟩ hfy⟩
  | none =>
    have hfy : (decodeRun head limits ys).decoder.failure = none := by rw [← hsame,hf]
    obtain ⟨hpayx,hconx⟩ := hpx hf
    obtain ⟨hpayy,hcony⟩ := hpy hfy
    exact Or.inr ⟨rfl,hfy,hconx.trans hcony.symm,hpayx.trans hpayy.symm,by rw [hsame],
      by rw [hsame]⟩

/-- A chunked body cut inside its size line and its data, read with tiny output
spans, against one call. -/
theorem decodeRun_independent_chunked :
    (decodeRun ⟨.post,[],[],40,0,true⟩ {} [⟨ascii "3\r",1⟩,⟨ascii "\nab",1⟩,⟨ascii "c\r\n0\r\n\r\n",1⟩,
        ⟨[],1⟩]).payload = ascii "abc" ∧
      (decodeRun ⟨.post,[],[],40,0,true⟩ {} [⟨ascii "3\r\nabc\r\n0\r\n\r\nnext",9⟩]).payload =
        ascii "abc" := by
  have hx : Finishes ⟨.post,[],[],40,0,true⟩ {} (ascii "3\r\nabc\r\n0\r\n\r\nnext")
      [⟨ascii "3\r",1⟩,⟨ascii "\nab",1⟩,⟨ascii "c\r\n0\r\n\r\n",1⟩,⟨[],1⟩] :=
    ⟨by decide,ascii "next",by decide,Or.inr (Or.inl (by decide +kernel))⟩
  have hy : Finishes ⟨.post,[],[],40,0,true⟩ {} (ascii "3\r\nabc\r\n0\r\n\r\nnext")
      [⟨ascii "3\r\nabc\r\n0\r\n\r\nnext",9⟩] :=
    ⟨by decide,[],by decide,Or.inr (Or.inl (by decide +kernel))⟩
  have hpay : (decodeRun ⟨.post,[],[],40,0,true⟩ {}
      [⟨ascii "3\r\nabc\r\n0\r\n\r\nnext",9⟩]).payload = ascii "abc" := by decide +kernel
  rcases (decodeRun_independent _ _ _ _ _ hx hy).1 with ⟨e,-,he,-⟩ | ⟨-,-,-,h,-⟩
  · have hnone : (decodeRun ⟨.post,[],[],40,0,true⟩ {}
        [⟨ascii "3\r\nabc\r\n0\r\n\r\nnext",9⟩]).decoder.failure = none := by decide +kernel
    rw [hnone] at he
    simp at he
  · exact ⟨h.trans hpay,hpay⟩

end SpareNode.Http
