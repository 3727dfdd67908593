import SpareNode.Http.Request.HeadAcceptance
import SpareNode.Http.Transport.BufferedRequest

/-! # Streaming ingestion refines the one-shot parser

The one-shot parser and the buffered request drive the same head parser and the same
decoder in different ways. Both come down to the verdict on the head and one run of the
byte machine on what follows it, so they agree on every fragmentation of the input.
-/
namespace SpareNode.Http
open Storage Incremental Transducer HttpBodyDecoder

namespace RequestBodyIngestor

/-- A file-backed ingestor without a failure that holds the given payload. -/
structure Holds (g : RequestBodyIngestor) (o : Bytes) : Prop where
  mode : g.storageMode = .temporaryFile
  failure : g.failure = none
  open_ : g.finalized = false → g.writer = none ∧ o = [] ∨ g.writer = some o
  closed : g.finalized = true → g.writer = none ∧ g.artifact.getD [] = o
  fresh : g.finalized = false → g.artifact = none

theorem Holds.next {g : RequestBodyIngestor} {o : Bytes} (hg : g.Holds o) : g.next.Holds o :=
  ⟨hg.mode,hg.failure,hg.open_,hg.closed,hg.fresh⟩

theorem ensureArtifact_reliable {g : RequestBodyIngestor} {o : Bytes} (hg : g.Holds o)
    (hf : g.finalized = false) :
    ∃ g', g.ensureArtifact .reliable = (g',.ok ()) ∧ g'.Holds o ∧ g'.writer = some o ∧
      g'.finalized = false ∧ g'.decoder = g.decoder := by
  rcases hg.open_ hf with ⟨hw,rfl⟩ | hw
  · refine ⟨{ g.called .create true with writer := some [] },?_,?_,rfl,hf,rfl⟩
    · simp [ensureArtifact,hw,StorageEnvironment.reliable]
    · refine ⟨hg.mode,hg.failure,fun _ => Or.inr rfl,?_,hg.fresh⟩
      intro hc
      exact absurd (hf.symm.trans hc) (by simp)
  · exact ⟨g,by simp [ensureArtifact,hw],hg,hw,hf,rfl⟩

theorem store_reliable {g : RequestBodyIngestor} {o output : Bytes} (hg : g.Holds o)
    (hf : g.finalized = false ∨ output = []) :
    ∃ g', g.store .reliable output = (g',.ok ()) ∧ g'.Holds (o ++ output) ∧
      g'.finalized = g.finalized ∧ g'.decoder = g.decoder := by
  by_cases hout : output = []
  · refine ⟨g,by rw [store,if_pos hout],?_,rfl,rfl⟩
    rwa [hout,List.append_nil]
  · have hopen := hf.resolve_right hout
    obtain ⟨g1,hensure,hg1,hw,hfin,hdec⟩ := ensureArtifact_reliable hg.next hopen
    refine ⟨{ g1.called (.write output) true with
      writer := g1.writer.map (· ++ output)
      bodySize := g1.bodySize + output.length },?_,⟨hg1.mode,hg1.failure,?_,?_,hg1.fresh⟩,
      hfin.trans hopen.symm,hdec⟩
    · rw [store,if_neg hout,persist,show StorageEnvironment.reliable.interruption g.tick = .none from rfl]
      simp only [interruptionError,hg.mode,hensure]
      rw [if_neg (by simp),show StorageEnvironment.reliable.write g1.tick = .ok () from rfl]
    · exact fun _ => Or.inr (by simp [hw])
    · exact fun hclosed => absurd (hfin.symm.trans hclosed) (by simp)

theorem finalize_reliable {g : RequestBodyIngestor} {o : Bytes} (hg : g.Holds o) :
    ∃ g', g.finalize .reliable = (g',.ok ()) ∧ g'.Holds o ∧ g'.finalized = true ∧
      g'.decoder = g.decoder := by
  cases hf : g.finalized with
  | true => exact ⟨g,by rw [finalize,if_pos hf],hg,hf,rfl⟩
  | false =>
    rcases hg.open_ hf with ⟨hw,rfl⟩ | hw
    · refine ⟨{ g with finalized := true },by simp [finalize,hf,hw],?_,rfl,rfl⟩
      exact ⟨hg.mode,hg.failure,by simp,by simp [hw,hg.fresh hf],by simp⟩
    · refine ⟨{ (g.called .complete true).next with artifact := some o, writer := none, finalized := true },
        by simp [finalize,hf,hw,StorageEnvironment.reliable,next,called],?_,rfl,rfl⟩
      exact ⟨hg.mode,hg.failure,by simp,by simp,by simp⟩

/-- The loop of one call, in terms of the byte machine: it fails as the machine fails,
and otherwise stores all the machine emits. -/
theorem feedLoop_reliable {g : RequestBodyIngestor} {o : Bytes} (pending : Bytes)
    (total : HttpBodyDecodeProgress) (hd : WellFormed g.decoder) (hf : g.decoder.failure = none)
    (hg : g.Holds o) (hfin : g.finalized = g.decoder.complete) :
    (∃ e, (machine.run g.decoder pending).1.failure = some e ∧
      (g.feedLoop .reliable pending total).2 = .error (framingFailure e)) ∨
    ∃ g' t, (machine.run g.decoder pending).1.failure = none ∧
      g.feedLoop .reliable pending total = (g',.ok t) ∧
      g'.decoder = (machine.run g.decoder pending).1 ∧
      g'.Holds (o ++ (machine.run g.decoder pending).2.2) ∧
      g'.finalized = g'.decoder.complete := by
  induction hn : pending.length using Nat.strong_induction_on generalizing g o pending total with
  | _ n ih =>
    subst hn
    rcases hfeed : g.decoder.feed pending bodyDecodeBufferBytes with ⟨d,e | p⟩
    · obtain ⟨hrun,he⟩ := feed_error_run hd hf hfeed
      refine Or.inl ⟨e,by rw [hrun]; exact he,?_⟩
      rw [feedLoop.eq_def,hfeed]
      rfl
    · obtain ⟨u,v,rfl,hc,hr,-,hf',hcomplete,hstop,-⟩ := feed_ok hd hfeed
      have hdrop : (u ++ v).drop p.consumed = v := by rw [hc,List.drop_left]
      have hout : g.finalized = false ∨ p.output = [] := by
        cases hdone : g.finalized with
        | false => exact Or.inl rfl
        | true =>
          rw [hfin] at hdone
          exact Or.inr (hr.halted_nil (halted_iff.mpr (Or.inl (complete_iff.mp hdone).1))).2.2
      have hgd : ({ g with decoder := d } : RequestBodyIngestor).Holds o :=
        ⟨hg.mode,hg.failure,hg.open_,hg.closed,hg.fresh⟩
      obtain ⟨g1,hstore,hg1,hfin1,hdec1⟩ := store_reliable hgd hout
      rw [hr.run_append v]
      cases hdone : d.complete with
      | true =>
        have hrun := (Reads.nil (T := machine) d).run_eq (v := v)
          (Or.inl (halted_iff.mpr (Or.inl (complete_iff.mp hdone).1)))
        rw [List.nil_append] at hrun
        obtain ⟨g2,hfinal,hg2,hfin2,hdec2⟩ := finalize_reliable hg1
        refine Or.inr ⟨g2,⟨total.consumed + p.consumed,total.output ++ p.output,true⟩,
          by rw [hrun]; exact hf',?_,?_,?_,?_⟩
        · exact feedLoop_completed hfeed hstore (hcomplete.trans hdone) hfinal
        · rw [hrun,hdec2,hdec1]
        · simpa [hrun] using hg2
        · rw [hfin2,hdec2,hdec1,hdone]
      | false =>
        have hfin' : g1.finalized = g1.decoder.complete := by
          rw [hfin1,hdec1]
          dsimp only
          rw [hfin,hdone]
          by_contra hc'
          have hhalt := halted_iff.mpr (Or.inl (complete_iff.mp (by simpa using hc')).1)
          obtain ⟨-,rfl,-⟩ := hr.halted_nil hhalt
          exact hc' hdone
        by_cases hv : v = []
        · subst hv
          exact Or.inr ⟨g1,_,hf',feedLoop_drained hfeed hstore (hcomplete.trans hdone) hdrop,hdec1,
            by simpa [run] using hg1,hfin'⟩
        · have hpos := feed_advances (by simp [hv]) (by decide) hfeed hdone hf'
          have hloop := @feedLoop_again .reliable g g1 (u ++ v) total p d hfeed hstore (hcomplete.trans hdone) hpos
            (by rwa [hdrop])
          rw [hdrop] at hloop
          have hlen : v.length < (u ++ v).length := by
            rw [List.length_append]
            omega
          have hnext := ih v.length hlen v
            ⟨total.consumed + p.consumed,total.output ++ p.output,false⟩
            (by rw [hdec1]; exact reads_wellFormed hr hd) (by rw [hdec1]; exact hf') hg1 hfin' rfl
          rw [hdec1] at hnext
          rw [hloop,← List.append_assoc]
          exact hnext

theorem feed_reliable {g : RequestBodyIngestor} {o : Bytes} (input : Bytes)
    (hd : WellFormed g.decoder) (hf : g.decoder.failure = none) (hg : g.Holds o)
    (hfin : g.finalized = g.decoder.complete) :
    (∃ e, (machine.run g.decoder input).1.failure = some e ∧
      (g.feed .reliable input).2 = .error (framingFailure e)) ∨
    ∃ g' t, (machine.run g.decoder input).1.failure = none ∧
      g.feed .reliable input = (g',.ok t) ∧ g'.decoder = (machine.run g.decoder input).1 ∧
      g'.Holds (o ++ (machine.run g.decoder input).2.2) ∧ g'.finalized = g'.decoder.complete := by
  have hloop : g.feed .reliable input = g.next.feedLoop .reliable input ⟨0,[],false⟩ := by
    rw [feed,hg.failure]
    rfl
  rw [hloop]
  exact feedLoop_reliable (g := g.next) input _ hd hf hg.next hfin

theorem create_holds (head : HttpRequestHead) (limits : HttpRequestParserLimits) :
    (RequestBodyIngestor.create head limits .temporaryFile).Holds [] :=
  ⟨rfl,rfl,fun _ => Or.inl ⟨rfl,rfl⟩,fun _ => ⟨rfl,rfl⟩,fun _ => rfl⟩

end RequestBodyIngestor

/-- What the buffered request should say about the bytes seen so far. -/
def streamVerdict (limits : HttpRequestParserLimits) :
    Bytes → Except BufferedRequestError (Option HttpRequestView) :=
  chain (fun input => relabel BufferedRequestError.parse id (parseHttpRequestHead input limits))
    (fun head input => relabel (fun e => .ingestion (framingFailure e)) (fun r => head.view r.2)
      (bodyVerdict head limits (input.drop head.consumedBytes)))

theorem streamVerdict_stable (limits : HttpRequestParserLimits) : Stable (streamVerdict limits) := by
  apply Stable.chain ((parseHttpRequestHead_stable limits).relabel _ _)
  intro head p q _ h
  rw [List.drop_append]
  exact (bodyVerdict_stable head limits).relabel _ _ _ _ h

/-- A fixed-length body is complete once all its bytes are there. -/
theorem bodyVerdict_fixed {head : HttpRequestHead} {limits : HttpRequestParserLimits}
    (wire : Bytes) (hc : head.chunked = false) (hm : head.contentLength ≤ limits.maxBodyBytes)
    (ho : head.consumedBytes + wire.length ≤ sizeMax) :
    bodyVerdict head limits wire =
      if wire.length < head.contentLength then .ok none
      else .ok (some (head.contentLength,wire.take head.contentLength)) := by
  have hf : (create head limits).failure = none := by simp [create,hc,Nat.not_lt.mpr hm]
  have hrem : (create head limits).remaining = head.contentLength := by
    simp [create,hc,Nat.not_lt.mpr hm]
  have hch : (create head limits).chunked = false := by simp [create,hc,Nat.not_lt.mpr hm]
  have hphase : (create head limits).phase =
      if head.contentLength = 0 then .done else .data := by
    simp [create,hc,Nat.not_lt.mpr hm]
  have hoff := create_offset head limits
  by_cases hz : head.contentLength = 0
  · rw [if_pos hz] at hphase
    have hrun := (Reads.nil (T := machine) (create head limits)).run_eq (v := wire)
      (Or.inl (halted_iff.mpr (Or.inl hphase)))
    rw [List.nil_append] at hrun
    simp [bodyVerdict,hrun,hf,complete,hphase,hz]
  · rw [if_neg hz] at hphase
    by_cases hshort : wire.length < head.contentLength
    · rw [if_pos hshort]
      by_cases hw : wire = []
      · simp [bodyVerdict,hw,run,hf,complete,hphase]
      · have hr := copyData_reads (create head limits) wire hphase hf hw (by omega) (by omega)
        have hrun := hr.run_eq (v := []) (Or.inr rfl)
        rw [List.append_nil] at hrun
        have hleft : (create head limits).remaining - wire.length ≠ 0 := by omega
        simp [bodyVerdict,hrun,copyData,hf,complete,hphase,hleft]
    · rw [if_neg hshort]
      have hlen : (wire.take head.contentLength).length = head.contentLength := by
        rw [List.length_take]
        omega
      have hr := copyData_reads (create head limits) (wire.take head.contentLength) hphase hf
        (List.length_pos_iff.mp (by omega)) (by omega) (by omega)
      have hdone : ((create head limits).copyData (wire.take head.contentLength).length).phase =
          .done := by simp [copyData,hlen,hrem,hch]
      have hrun := hr.run_eq (v := wire.drop head.contentLength)
        (Or.inl (halted_iff.mpr (Or.inl hdone)))
      rw [List.take_append_drop] at hrun
      have hfail : ((create head limits).copyData
          (wire.take head.contentLength).length).failure = none := hf
      simp only [bodyVerdict,hrun,hfail,complete_iff.mpr ⟨hdone,hfail⟩,↓reduceIte,
        List.length_drop]
      rw [show wire.length - (wire.length - head.contentLength) = head.contentLength by omega]

/-- On a span, both kinds of body are read as the byte machine reads them. -/
theorem scanBody_eq {head : HttpRequestHead} {limits : HttpRequestParserLimits} {input : Bytes}
    (hn : head.consumedBytes ≤ input.length) (hm : head.contentLength ≤ limits.maxBodyBytes)
    (hs : input.length ≤ sizeMax) :
    scanBody limits head input = relabel id (fun r => (head.consumedBytes + r.1,head.view r.2))
      (bodyVerdict head limits (input.drop head.consumedBytes)) := by
  cases hc : head.chunked with
  | true =>
    rw [scanBody,if_neg (by simp [hc])]
    rcases bodyVerdict head limits (input.drop head.consumedBytes) with e | _ | r <;> rfl
  | false =>
    rw [scanBody,if_pos hc,bodyVerdict_fixed _ hc hm (by rw [List.length_drop]; omega),
      List.length_drop]
    split <;> rfl

/-- A buffered request with the default policy that has seen the bytes `w`, failed
nowhere and is still waiting for its head, or has read its body as far as it goes. -/
inductive Seen (limits : HttpRequestParserLimits) (w : Bytes) (r : BufferedRequest) : Prop
  | metadata (h : parseHttpRequestHead w limits = .ok none) (hl : r.limits = limits)
      (hs : r.storagePolicySelector = none) (hm : r.metadata = w) (hh : r.head = none)
      (hg : r.ingestor = none)
  | body {head : HttpRequestHead} {g : RequestBodyIngestor}
      (h : parseHttpRequestHead w limits = .ok (some head)) (hh : r.head = some head)
      (hg : r.ingestor = some g)
      (hd : g.decoder = (machine.run (create head limits) (w.drop head.consumedBytes)).1)
      (hf : g.decoder.failure = none)
      (ho : g.Holds (machine.run (create head limits) (w.drop head.consumedBytes)).2.2)
      (hfin : g.finalized = g.decoder.complete)

theorem seen_start (limits : HttpRequestParserLimits) : Seen limits [] { limits := limits } :=
  .metadata (by simp [parseHttpRequestHead]) rfl rfl rfl rfl rfl

theorem RequestBodyIngestor.Holds.complete {g : RequestBodyIngestor} {o : Bytes} (hg : g.Holds o)
    (hfin : g.finalized = g.decoder.complete) : g.complete = g.decoder.complete := by
  simp [RequestBodyIngestor.complete,hfin,hg.failure]

/-- What the buffered request offers is the verdict on the bytes it has seen. -/
theorem Seen.request {limits : HttpRequestParserLimits} {w : Bytes} {r : BufferedRequest}
    (h : Seen limits w r) : streamVerdict limits w = .ok r.request := by
  cases h with
  | metadata h hl hs hm hh hg =>
    simp [streamVerdict,chain,relabel,h,BufferedRequest.request,hh]
  | @body head g h hh hg hd hf ho hfin =>
    have hcomplete := ho.complete hfin
    have hverdict : bodyVerdict head limits (w.drop head.consumedBytes) =
        if g.decoder.complete then
          .ok (some ((w.drop head.consumedBytes).length -
            (machine.run (create head limits) (w.drop head.consumedBytes)).2.1.length,
            (machine.run (create head limits) (w.drop head.consumedBytes)).2.2))
        else .ok none := by
      simp only [bodyVerdict,← hd,hf]
    simp only [streamVerdict,chain,relabel,h,hverdict,BufferedRequest.request,hh,hg,hcomplete,id]
    cases hdone : g.decoder.complete with
    | false => simp
    | true =>
      have hartifact := (ho.closed (hfin.trans hdone)).2
      simp [RequestBodyIngestor.completedMemoryBody,ho.mode,RequestBodyIngestor.completedArtifact,
        hcomplete,hdone,hartifact]

theorem Seen.request_ne_none {limits : HttpRequestParserLimits} {w : Bytes} {r : BufferedRequest}
    (h : Seen limits w r) (hc : r.complete = true) : r.request ≠ none := by
  cases h with
  | metadata _ _ _ _ _ hg => simp [BufferedRequest.complete,hg] at hc
  | body _ hh hg _ _ _ _ =>
    simp only [BufferedRequest.complete,hg] at hc
    simp only [BufferedRequest.request,hh,hg,hc,↓reduceIte]
    split <;> simp

/-- Body bytes that continue what the decoder has read so far. -/
theorem feedBody_seen {limits : HttpRequestParserLimits} {head : HttpRequestHead} {w wire f : Bytes}
    {o : Bytes} {g : RequestBodyIngestor} {r : BufferedRequest}
    (h : parseHttpRequestHead w limits = .ok (some head))
    (hw : w.drop head.consumedBytes = wire ++ f)
    (hreads : machine.Reads (create head limits) wire g.decoder o) (hf : g.decoder.failure = none)
    (hg : g.Holds o) (hfin : g.finalized = g.decoder.complete) (hr : r.ingestor = some g)
    (hh : r.head = some head) :
    (∃ e, (r.feedBody .reliable f).2 = .error e ∧ streamVerdict limits w = .error e) ∨
    ∃ r', r.feedBody .reliable f = (r',.ok ()) ∧
      ∀ m, Seen limits w { r' with metadata := m } := by
  have hwf := reads_wellFormed hreads (create_wellFormed head limits)
  have hrun := hreads.run_append f
  rw [← hw] at hrun
  rcases RequestBodyIngestor.feed_reliable f hwf hf hg hfin with
    ⟨e,hfail,hfeed⟩ | ⟨g',t,hok,hfeed,hd',hg',hfin'⟩
  · refine Or.inl ⟨.ingestion (framingFailure e),?_,?_⟩
    · rcases hpair : g.feed .reliable f with ⟨g',res⟩
      rw [hpair] at hfeed
      dsimp only at hfeed
      subst hfeed
      simp only [BufferedRequest.feedBody,hr,hpair]
    · have hverdict : bodyVerdict head limits (w.drop head.consumedBytes) = .error e := by
        simp only [bodyVerdict,hrun,hfail]
      simp [streamVerdict,chain,relabel,h,hverdict]
  · refine Or.inr ⟨{ r with ingestor := some g' },?_,?_⟩
    · simp only [BufferedRequest.feedBody,hr,hfeed]
    · intro m
      exact .body (g := g') h hh rfl (by rw [hrun]; exact hd') (by rw [hd']; exact hok)
        (by rw [hrun]; exact hg') hfin'

/-- A decoder that neither failed nor is complete has read all of its input. -/
theorem reads_all {head : HttpRequestHead} {limits : HttpRequestParserLimits} {wire : Bytes}
    {d : HttpBodyDecoder} (hd : d = (machine.run (create head limits) wire).1) (hf : d.failure = none)
    (hnot : d.complete = false) :
    machine.Reads (create head limits) wire d (machine.run (create head limits) wire).2.2 := by
  obtain ⟨u,hu,hreads,hend⟩ := run_reads (T := machine) (create head limits) wire
  rw [← hd] at hreads hend
  have hall : (machine.run (create head limits) wire).2.1 = [] := by
    apply hend.resolve_left
    intro hhalt
    rcases halted_iff.mp hhalt with hdone | hfail
    · rw [complete_iff.mpr ⟨hdone,hf⟩] at hnot
      simp at hnot
    · simp [hf] at hfail
  rw [hall,List.append_nil] at hu
  rwa [← hu] at hreads

/-- One more fragment keeps the request in step with the verdict. -/
theorem Seen.feed {limits : HttpRequestParserLimits} {w : Bytes} {r : BufferedRequest}
    (h : Seen limits w r) (hc : r.complete = false) (f : Bytes) :
    (∃ e, (r.feed .reliable f).2 = .error e ∧ streamVerdict limits (w ++ f) = .error e) ∨
    ∃ r', r.feed .reliable f = (r',.ok ()) ∧ Seen limits (w ++ f) r' := by
  cases h with
  | metadata h hl hs hm hh hg =>
    subst hl hm
    rcases hparse : parseHttpRequestHead (r.metadata ++ f) r.limits with e | _ | head
    · refine Or.inl ⟨.parse e,?_,by simp [streamVerdict,chain,relabel,hparse]⟩
      simp [BufferedRequest.feed,hh,hparse]
    · refine Or.inr ⟨{ r with metadata := r.metadata ++ f },?_,.metadata hparse rfl hs rfl hh hg⟩
      simp [BufferedRequest.feed,hh,hparse]
    · have hcreate := RequestBodyIngestor.create_holds head r.limits
      have hlimit : (create head r.limits).failure = none := by
        simp [create,Nat.not_lt.mpr (head_bounds hparse).2]
      let started : BufferedRequest := { r with
        metadata := r.metadata ++ f
        head := some head
        ingestor := some (RequestBodyIngestor.create head r.limits .temporaryFile) }
      have hfeed : r.feed .reliable f =
          ({ (started.feedBody .reliable ((r.metadata ++ f).drop head.consumedBytes)).1 with
            metadata := (r.metadata ++ f).take head.consumedBytes },
          (started.feedBody .reliable ((r.metadata ++ f).drop head.consumedBytes)).2) := by
        simp [started,BufferedRequest.feed,hh,hparse,hs,BufferedRequest.bodyLimits]
      rcases feedBody_seen (r := started) hparse (List.nil_append _).symm (Reads.nil _) hlimit hcreate
        rfl rfl rfl with ⟨e,he,hv⟩ | ⟨r',hr',hseen⟩
      · exact Or.inl ⟨e,by rw [hfeed]; exact he,hv⟩
      · refine Or.inr ⟨_,?_,hseen ((r.metadata ++ f).take head.consumedBytes)⟩
        rw [hfeed,hr']
  | @body head g h hh hg hd hf ho hfin =>
    have hnot : g.decoder.complete = false := by
      rw [← ho.complete hfin]
      simpa [BufferedRequest.complete,hg] using hc
    have hreads := reads_all hd hf hnot
    have happend := (parseHttpRequestHead_stable limits w f (by simp [h])).trans h
    have hdrop : (w ++ f).drop head.consumedBytes = w.drop head.consumedBytes ++ f :=
      List.drop_append_of_le_length (head_bounds h).1
    have hfeed : r.feed .reliable f = r.feedBody .reliable f := by
      simp [BufferedRequest.feed,hh]
    rw [hfeed]
    rcases feedBody_seen happend hdrop hreads hf ho hfin hg hh with he | ⟨r',hr',hseen⟩
    · exact Or.inl he
    · exact Or.inr ⟨r',hr',hseen r'.metadata⟩

theorem ingest_eq {limits : HttpRequestParserLimits} (fragments : List Bytes) {w : Bytes}
    {r : BufferedRequest} (h : Seen limits w r) :
    r.ingest .reliable fragments = streamVerdict limits (w ++ fragments.flatten) := by
  induction fragments generalizing w r with
  | nil => simpa [BufferedRequest.ingest] using h.request.symm
  | cons f fragments ih =>
    rw [BufferedRequest.ingest,List.flatten_cons]
    cases hc : r.complete with
    | true =>
      have hsome := h.request_ne_none hc
      rw [streamVerdict_stable limits w _ (by rw [h.request]; simpa using hsome),h.request]
      rfl
    | false =>
      rw [if_neg (by simp),← List.append_assoc]
      rcases h.feed hc f with ⟨e,he,hv⟩ | ⟨r',hr',hseen⟩
      · rw [streamVerdict_stable limits (w ++ f) _ (by simp [hv]),hv]
        rcases hpair : r.feed .reliable f with ⟨r',res⟩
        rw [hpair] at he
        dsimp only at he
        subst he
        rfl
      · rw [hr']
        exact ih hseen

/-- Streaming ingestion with the default policy and storage that never fails says of
every fragmentation what the one-shot parser says of the whole input: more input is
needed; or the same request is complete; or the same error occurred, reported as it is
when the head is at fault and inside an ingestion error when the body is. -/
theorem ingest_refines_parse (limits : HttpRequestParserLimits) (s : Span) (fragments : List Bytes)
    (hs : fragments.flatten = s.1) :
    BufferedRequest.ingest .reliable { limits := limits } fragments =
      match parseHttpRequest s.1 limits with
      | .ok .incomplete => .ok none
      | .ok (.complete _ request) => .ok (some request)
      | .error e =>
        match parseHttpRequestHead s.1 limits with
        | .error _ => .error (.parse e)
        | .ok _ => .error (.ingestion (framingFailure e)) := by
  rw [ingest_eq fragments (seen_start limits),List.nil_append,hs,parseHttpRequest_eq_chain,
    streamVerdict,chain,chain]
  rcases hparse : parseHttpRequestHead s.1 limits with e | _ | head
  · rfl
  · rfl
  · obtain ⟨hn,hm⟩ := head_bounds hparse
    simp only [relabel,scanBody_eq hn hm s.2,id]
    rcases bodyVerdict head limits (s.1.drop head.consumedBytes) with e | _ | r <;> rfl

/-- A chunked upload cut inside its head, its size line and its data. -/
theorem ingest_refines_parse_chunked :
    BufferedRequest.ingest .reliable { limits := {} }
      [ascii "PUT /u HTTP/1.1\r\nHost: h\r\nTransfer-Encoding: chunked\r",ascii "\n\r\n3\r",
        ascii "\nab",ascii "c\r\n0\r\n\r\nnext"] =
      .ok (some ⟨.put,ascii "/u",[⟨ascii "Host",ascii "h"⟩,
        ⟨ascii "Transfer-Encoding",ascii "chunked"⟩],ascii "abc"⟩) := by
  rw [ingest_refines_parse {} ⟨ascii "PUT /u HTTP/1.1\r\nHost: h\r\nTransfer-Encoding: chunked\r\n\r\n3\r\nabc\r\n0\r\n\r\nnext",
    by decide⟩ _ (by decide)]
  decide +kernel

end SpareNode.Http
