import SpareNode.Http.Request.WholeBody
import SpareNode.Http.Transport.RequestBodyIngestor

/-! # Ingestion yields whole bodies only

Whatever the storage, the clock and the stop token do at each point, an ingestor either holds
exactly the payload of the wire bytes it has taken, or it has failed for good. Its history shows
what the temporary storage was asked on the way.
-/
namespace SpareNode.Http
open Storage Transducer HttpBodyDecoder

namespace RequestBodyIngestor

/-- The history of a temporary file that was given some pieces. -/
def fileHistory (pieces : List Bytes) : List (StorageCall × Bool) :=
  (.create,true) :: pieces.map fun piece => (.write piece,true)

/-- Where an ingestor without a failure keeps the payload that it has stored. -/
inductive Sink (payload : Bytes) (g : RequestBodyIngestor) : Prop
  | memory (mode : g.storageMode = .memory) (body : g.memoryBody = some payload)
      (writer : g.writer = none) (artifact : g.artifact = none) (history : g.history = [])
  | untouched (mode : g.storageMode = .temporaryFile) (empty : payload = [])
      (body : g.memoryBody = none) (writer : g.writer = none) (artifact : g.artifact = none)
      (history : g.history = [])
  | writing (mode : g.storageMode = .temporaryFile) (pieces : List Bytes)
      (whole : pieces.flatten = payload) (some_ : payload ≠ []) (unfinished : g.finalized = false)
      (body : g.memoryBody = none) (writer : g.writer = some payload) (artifact : g.artifact = none)
      (history : g.history = fileHistory pieces)
  | closed (mode : g.storageMode = .temporaryFile) (pieces : List Bytes)
      (whole : pieces.flatten = payload) (some_ : payload ≠ []) (finished : g.finalized = true)
      (body : g.memoryBody = none) (writer : g.writer = none) (artifact : g.artifact = some payload)
      (history : g.history = fileHistory pieces ++ [(.complete,true)])

/-- An ingestor that has stored a payload and failed nowhere. -/
structure Stored (mode : RequestBodyStorageMode) (payload : Bytes) (g : RequestBodyIngestor) : Prop where
  mode : g.storageMode = mode
  failure : g.failure = none
  size : g.bodySize = payload.length
  sink : Sink payload g

/-- An ingestor that has failed: it keeps its error and no storage. -/
structure Failed (e : RequestBodyIngestionError) (g : RequestBodyIngestor) : Prop where
  failure : g.failure = some e
  writer : g.writer = none
  artifact : g.artifact = none

variable {g g' : RequestBodyIngestor} {payload output : Bytes} {mode : RequestBodyStorageMode}
variable (env : StorageEnvironment)

theorem fail_failed (g : RequestBodyIngestor) (e : RequestBodyIngestionError) :
    Failed e { g with writer := none, artifact := none, failure := some e } := ⟨rfl,rfl,rfl⟩

theorem Sink.with_decoder (h : Sink payload g) (d : HttpBodyDecoder) :
    Sink payload { g with decoder := d } := by
  cases h with
  | memory mode body writer artifact history => exact .memory mode body writer artifact history
  | untouched mode empty body writer artifact history =>
    exact .untouched mode empty body writer artifact history
  | writing mode pieces whole some_ unfinished body writer artifact history =>
    exact .writing mode pieces whole some_ unfinished body writer artifact history
  | closed mode pieces whole some_ finished body writer artifact history =>
    exact .closed mode pieces whole some_ finished body writer artifact history

theorem Sink.next (h : Sink payload g) : Sink payload g.next := by
  cases h with
  | memory mode body writer artifact history => exact .memory mode body writer artifact history
  | untouched mode empty body writer artifact history =>
    exact .untouched mode empty body writer artifact history
  | writing mode pieces whole some_ unfinished body writer artifact history =>
    exact .writing mode pieces whole some_ unfinished body writer artifact history
  | closed mode pieces whole some_ finished body writer artifact history =>
    exact .closed mode pieces whole some_ finished body writer artifact history

theorem Stored.with_decoder (h : Stored mode payload g) (d : HttpBodyDecoder) :
    Stored mode payload { g with decoder := d } := ⟨h.mode,h.failure,h.size,h.sink.with_decoder d⟩

theorem Stored.next (h : Stored mode payload g) : Stored mode payload g.next :=
  ⟨h.mode,h.failure,h.size,h.sink.next⟩

/-- Nothing was asked of the temporary storage for an empty payload. -/
theorem Sink.quiet (h : Sink payload g) (hempty : payload = []) : g.history = [] := by
  cases h with
  | memory mode body writer artifact history => exact history
  | untouched mode empty body writer artifact history => exact history
  | writing mode pieces whole some_ unfinished body writer artifact history =>
    exact absurd hempty some_
  | closed mode pieces whole some_ finished body writer artifact history =>
    exact absurd hempty some_

/-- A temporary file that is open for the next piece. -/
structure Opened (payload : Bytes) (g : RequestBodyIngestor) : Prop where
  mode : g.storageMode = .temporaryFile
  failure : g.failure = none
  body : g.memoryBody = none
  writer : g.writer = some payload
  artifact : g.artifact = none
  history : ∃ pieces, pieces.flatten = payload ∧ g.history = fileHistory pieces

theorem ensureArtifact_spec (h : Stored mode payload g) (hmode : g.storageMode = .temporaryFile)
    (hopen : g.finalized = false) :
    (∃ g' e, g.ensureArtifact env = (g',.error e) ∧ Failed e g') ∨
    ∃ g', g.ensureArtifact env = (g',.ok ()) ∧ Opened payload g' ∧ g'.finalized = false ∧
      g'.decoder = g.decoder ∧ g'.bodySize = g.bodySize := by
  unfold ensureArtifact
  cases h.sink with
  | memory mode body writer artifact history => exact absurd (mode.symm.trans hmode) (by decide)
  | closed mode pieces whole some_ finished body writer artifact history =>
    exact absurd (finished.symm.trans hopen) (by decide)
  | writing mode pieces whole some_ unfinished body writer artifact history =>
    rw [if_pos (by rw [writer]; rfl)]
    exact .inr ⟨g,rfl,⟨mode,h.failure,body,writer,artifact,pieces,whole,history⟩,hopen,rfl,rfl⟩
  | untouched mode empty body writer artifact history =>
    rw [if_neg (by rw [writer]; decide)]
    split
    · exact .inl ⟨_,_,rfl,fail_failed _ _⟩
    · refine .inr ⟨_,rfl,⟨mode,h.failure,body,by rw [empty],artifact,[],empty.symm,?_⟩,hopen,rfl,rfl⟩
      change g.history ++ [(StorageCall.create,true)] = _
      rw [history]
      rfl

theorem persist_spec (h : Stored mode payload g) (hopen : g.finalized = false) (hsome : output ≠ []) :
    (∃ g' e, g.persist env output = (g',.error e) ∧ Failed e g') ∨
    ∃ g', g.persist env output = (g',.ok ()) ∧ Stored mode (payload ++ output) g' ∧
      g'.finalized = false ∧ g'.decoder = g.decoder := by
  unfold persist
  split
  · exact .inl ⟨_,_,rfl,fail_failed _ _⟩
  · split
    · rename_i hmode
      split
      · cases h.sink with
        | memory mode body writer artifact history =>
          refine .inr ⟨_,rfl,⟨h.mode,h.failure,?_,?_⟩,hopen,rfl⟩
          · change g.bodySize + output.length = _
            rw [h.size,List.length_append]
          · exact .memory mode (by rw [body]; rfl) writer artifact history
        | untouched mode empty body writer artifact history =>
          exact absurd (mode.symm.trans hmode) (by decide)
        | writing mode pieces whole some_ unfinished body writer artifact history =>
          exact absurd (mode.symm.trans hmode) (by decide)
        | closed mode pieces whole some_ finished body writer artifact history =>
          exact absurd (mode.symm.trans hmode) (by decide)
      · exact .inl ⟨_,_,rfl,fail_failed _ _⟩
    · rename_i hmode
      have hfile : g.storageMode = .temporaryFile := by
        cases hcase : g.storageMode with
        | temporaryFile => rfl
        | memory => exact absurd hcase hmode
      rcases ensureArtifact_spec env h.next hfile hopen with
        ⟨g1,e,hensure,hfailed⟩ | ⟨g1,hensure,hopened,hopen1,hdec,hsize⟩
      · exact .inl ⟨g1,e,by rw [hensure],hfailed⟩
      · rw [hensure]
        dsimp only
        split
        · exact .inl ⟨_,_,rfl,fail_failed _ _⟩
        · obtain ⟨pieces,hwhole,hhistory⟩ := hopened.history
          refine .inr ⟨_,rfl,⟨hopened.mode.trans (hfile.symm.trans h.mode),hopened.failure,?_,?_⟩,hopen1,hdec⟩
          · change g1.bodySize + output.length = _
            rw [hsize,List.length_append]
            exact congrArg (· + output.length) h.size
          · refine .writing hopened.mode (pieces ++ [output]) ?_ ?_ hopen1 hopened.body ?_
              hopened.artifact ?_
            · rw [List.flatten_append,hwhole,List.flatten_singleton]
            · exact fun hnil => hsome (List.append_eq_nil_iff.mp hnil).2
            · change g1.writer.map (· ++ output) = _
              rw [hopened.writer]
              rfl
            · change g1.history ++ [(StorageCall.write output,true)] = _
              rw [hhistory,fileHistory,fileHistory,List.map_append]
              rfl

theorem store_spec (h : Stored mode payload g) (hopen : g.finalized = false ∨ output = []) :
    (∃ g' e, g.store env output = (g',.error e) ∧ Failed e g' ∧ output ≠ []) ∨
    ∃ g', g.store env output = (g',.ok ()) ∧ Stored mode (payload ++ output) g' ∧
      g'.finalized = g.finalized ∧ g'.decoder = g.decoder := by
  unfold store
  split
  · rename_i hempty
    refine .inr ⟨g,rfl,?_,rfl,rfl⟩
    rwa [hempty,List.append_nil]
  · rename_i hsome
    have hfresh := hopen.resolve_right hsome
    rcases persist_spec env h hfresh hsome with ⟨g1,e,hpersist,hfailed⟩ | ⟨g1,hpersist,hstored,hfin,hdec⟩
    · exact .inl ⟨g1,e,hpersist,hfailed,hsome⟩
    · exact .inr ⟨g1,hpersist,hstored,hfin.trans hfresh.symm,hdec⟩

theorem finalize_spec (h : Stored mode payload g) :
    (∃ g' e, g.finalize env = (g',.error e) ∧ Failed e g' ∧ payload ≠ []) ∨
    ∃ g', g.finalize env = (g',.ok ()) ∧ Stored mode payload g' ∧ g'.finalized = true ∧
      g'.decoder = g.decoder := by
  unfold finalize
  split
  · rename_i hdone
    exact .inr ⟨g,rfl,h,hdone,rfl⟩
  · rename_i hopen
    cases h.sink with
    | memory mode body writer artifact history =>
      rw [writer]
      exact .inr ⟨_,rfl,⟨h.mode,h.failure,h.size,.memory mode body rfl artifact history⟩,rfl,rfl⟩
    | untouched mode empty body writer artifact history =>
      rw [writer]
      exact .inr ⟨_,rfl,⟨h.mode,h.failure,h.size,.untouched mode empty body rfl artifact history⟩,rfl,rfl⟩
    | closed mode pieces whole some_ finished body writer artifact history =>
      exact absurd finished hopen
    | writing mode pieces whole some_ unfinished body writer artifact history =>
      rw [writer]
      dsimp only
      split
      · exact .inl ⟨_,_,rfl,fail_failed _ _,some_⟩
      · split
        · refine .inr ⟨_,rfl,⟨h.mode,h.failure,h.size,?_⟩,rfl,rfl⟩
          refine .closed mode pieces whole some_ rfl body rfl rfl ?_
          change g.history ++ [(StorageCall.complete,true)] = _
          rw [history]
        · exact .inl ⟨_,_,rfl,fail_failed _ _,some_⟩

/-- An ingestor that has taken some wire bytes and stored their payload, without a failure. -/
structure Ingested (head : HttpRequestHead) (limits : HttpRequestParserLimits)
    (mode : RequestBodyStorageMode) (wire payload : Bytes) (g : RequestBodyIngestor) : Prop where
  stored : Stored mode payload g
  reads : machine.Reads (HttpBodyDecoder.create head limits) wire g.decoder payload
  finalized : g.finalized = g.decoder.complete

variable {head : HttpRequestHead} {limits : HttpRequestParserLimits} {wire : Bytes}

theorem Ingested.next (h : Ingested head limits mode wire payload g) :
    Ingested head limits mode wire payload g.next := ⟨h.stored.next,h.reads,h.finalized⟩

theorem Ingested.complete (h : Ingested head limits mode wire payload g) :
    g.complete = g.decoder.complete := by
  rw [RequestBodyIngestor.complete,h.stored.failure,h.finalized]
  simp

/-- Bytes of the input were decoded up to the failure, and an empty payload left no trace. -/
structure Stopped (payload input : Bytes) (g : RequestBodyIngestor) (e : RequestBodyIngestionError)
    (g' : RequestBodyIngestor) : Prop where
  failed : Failed e g'
  quiet : ∃ u d o, u <+: input ∧ machine.Reads g.decoder u d o ∧ (payload ++ o = [] → g'.history = [])

/-- What a call that succeeded took, stored and reported. -/
def Taken (head : HttpRequestHead) (limits : HttpRequestParserLimits) (mode : RequestBodyStorageMode)
    (wire payload input : Bytes) (g : RequestBodyIngestor) (count : ℕ) (g' : RequestBodyIngestor) : Prop :=
  ∃ u v o, input = u ++ v ∧ count = u.length ∧ machine.Reads g.decoder u g'.decoder o ∧
    Ingested head limits mode (wire ++ u) (payload ++ o) g' ∧ (v = [] ∨ g'.complete = true)

/-- A round of the loop followed by the rest of it. -/
theorem Taken.trans {u v o : Bytes} {g1 : RequestBodyIngestor} {count : ℕ}
    (hr : machine.Reads g.decoder u g1.decoder o)
    (h : Taken head limits mode (wire ++ u) (payload ++ o) v g1 count g') :
    Taken head limits mode wire payload (u ++ v) g (u.length + count) g' := by
  obtain ⟨u',v',o',rfl,rfl,hr',hingested,hend⟩ := h
  rw [List.append_assoc,List.append_assoc] at hingested
  exact ⟨u ++ u',v',o ++ o',(List.append_assoc _ _ _).symm,(List.length_append).symm,hr.trans hr',
    hingested,hend⟩

theorem Stopped.trans {u v o : Bytes} {g1 : RequestBodyIngestor} {e : RequestBodyIngestionError}
    (hr : machine.Reads g.decoder u g1.decoder o) (h : Stopped (payload ++ o) v g1 e g') :
    Stopped payload (u ++ v) g e g' := by
  obtain ⟨hfailed,w,d,o',⟨rest,rfl⟩,hr',hquiet⟩ := h
  rw [List.append_assoc] at hquiet
  exact ⟨hfailed,u ++ w,d,o ++ o',⟨rest,List.append_assoc _ _ _⟩,hr.trans hr',hquiet⟩

theorem Stored.early {e : RequestBodyIngestionError} (h : Stored mode payload g) (hfailed : Failed e g')
    (hhistory : g'.history = g.history) (input : Bytes) : Stopped payload input g e g' := by
  refine ⟨hfailed,[],g.decoder,[],List.nil_prefix,.nil _,?_⟩
  intro hempty
  rw [List.append_nil] at hempty
  exact hhistory.trans (h.sink.quiet hempty)

/-- The loop of `feed`: it stops in a failure, at the end of the input or at the body boundary. -/
theorem feedLoop_spec (pending : Bytes) (total : HttpBodyDecodeProgress)
    (h : Ingested head limits mode wire payload g) :
    (∃ g' e, g.feedLoop env pending total = (g',.error e) ∧ Stopped payload pending g e g') ∨
    ∃ g' t count, g.feedLoop env pending total = (g',.ok t) ∧ t.consumed = total.consumed + count ∧
      Taken head limits mode wire payload pending g count g' := by
  induction hn : pending.length using Nat.strong_induction_on
    generalizing g wire payload pending total with
  | _ n ih =>
    subst hn
    have hd := reads_wellFormed h.reads (create_wellFormed head limits)
    rcases hfeed : g.decoder.feed pending bodyDecodeBufferBytes with ⟨d,e | p⟩
    · have hloop : g.feedLoop env pending total = { g with decoder := d }.fail (framingFailure e) := by
        rw [feedLoop.eq_def,hfeed]
      exact .inl ⟨_,_,hloop,h.stored.early (fail_failed { g with decoder := d } _) rfl pending⟩
    · obtain ⟨u,v,rfl,hc,hr,hf,hf',hcomplete,hstop,-⟩ := feed_ok hd hfeed
      have hdrop : (u ++ v).drop p.consumed = v := by rw [hc,List.drop_left]
      have hwhole := h.reads.trans hr
      have hout : g.finalized = false ∨ p.output = [] := by
        cases hdone : g.finalized with
        | false => exact .inl rfl
        | true =>
          have hphase := (complete_iff.mp (h.finalized.symm.trans hdone)).1
          exact .inr (hr.halted_nil (halted_iff.mpr (.inl hphase))).2.2
      rcases store_spec env (h.stored.with_decoder d) hout with
        ⟨g1,e,hstore,hfailed,hsome⟩ | ⟨g1,hstore,hstored1,hfin1,hdec1⟩
      · refine .inl ⟨g1,e,by rw [feedLoop.eq_def,hfeed]; simp only [hstore],hfailed,u,d,
          p.output,List.prefix_append u v,hr,?_⟩
        intro hempty
        exact absurd (List.append_eq_nil_iff.mp hempty).2 hsome
      · have hdec : g1.decoder = d := hdec1
        cases hdone : d.complete with
        | true =>
          rcases finalize_spec env hstored1 with ⟨g2,e,hfinal,hfailed,hsome⟩ | ⟨g2,hfinal,hstored2,hfin2,hdec2⟩
          · refine .inl ⟨g2,e,?_,hfailed,u,d,p.output,List.prefix_append u v,hr,
              fun hempty => absurd hempty hsome⟩
            rw [feedLoop.eq_def,hfeed]
            simp only [hstore,hcomplete,hdone,hfinal,↓reduceIte]
          · have hdecoder : g2.decoder = d := hdec2.trans hdec
            have hingested : Ingested head limits mode (wire ++ u) (payload ++ p.output) g2 :=
              ⟨hstored2,by rw [hdecoder]; exact hwhole,by rw [hfin2,hdecoder,hdone]⟩
            refine .inr ⟨g2,⟨total.consumed + p.consumed,total.output ++ p.output,true⟩,u.length,?_,
              by rw [hc],u,v,p.output,rfl,rfl,by rw [hdecoder]; exact hr,hingested,.inr ?_⟩
            · exact feedLoop_completed hfeed hstore (hcomplete.trans hdone) hfinal
            · rw [hingested.complete,hdecoder,hdone]
        | false =>
          have hopen : g.finalized = false := by
            by_contra hclosed
            rw [Bool.not_eq_false,h.finalized] at hclosed
            have hhalt := halted_iff.mpr (.inl (complete_iff.mp hclosed).1)
            obtain ⟨-,hsame,-⟩ := hr.halted_nil hhalt
            rw [hsame,hclosed] at hdone
            exact absurd hdone (by decide)
          have hingested : Ingested head limits mode (wire ++ u) (payload ++ p.output) g1 :=
            ⟨hstored1,by rw [hdec]; exact hwhole,by rw [hfin1,hdec,hdone]; exact hopen⟩
          by_cases hv : v = []
          · subst hv
            exact .inr ⟨g1,_,u.length,feedLoop_drained hfeed hstore (hcomplete.trans hdone) hdrop,by rw [hc],
              u,[],p.output,rfl,rfl,by rw [hdec]; exact hr,hingested,.inl rfl⟩
          · have hpos := feed_advances (by simp [hv]) (by decide) hfeed hdone hf'
            have hloop := @feedLoop_again env g g1 (u ++ v) total p d hfeed hstore (hcomplete.trans hdone) hpos
              (by rwa [hdrop])
            rw [hdrop] at hloop
            have hlen : v.length < (u ++ v).length := by
              rw [List.length_append]
              omega
            have hround : machine.Reads g.decoder u g1.decoder p.output := by rw [hdec]; exact hr
            rw [hloop]
            rcases ih v.length hlen v _ hingested rfl with
              ⟨g2,e,hrest,hstopped⟩ | ⟨g2,t,count,hrest,ht,htaken⟩
            · exact .inl ⟨g2,e,hrest,hstopped.trans hround⟩
            · refine .inr ⟨g2,t,u.length + count,hrest,?_,htaken.trans hround⟩
              rw [ht,hc]
              exact Nat.add_assoc _ _ _

theorem feed_spec (input : Bytes) (h : Ingested head limits mode wire payload g) :
    (∃ g' e, g.feed env input = (g',.error e) ∧ Stopped payload input g e g') ∨
    ∃ g' t, g.feed env input = (g',.ok t) ∧ Taken head limits mode wire payload input g t.consumed g' := by
  unfold feed
  rw [h.stored.failure]
  dsimp only
  split
  · exact .inl ⟨_,_,rfl,h.stored.early (by exact fail_failed _ _) (by rfl) input⟩
  · rcases feedLoop_spec env input ⟨0,[],false⟩ h.next with
      ⟨g',e,hloop,hstopped⟩ | ⟨g',t,count,hloop,ht,htaken⟩
    · exact .inl ⟨g',e,hloop,hstopped.failed,hstopped.quiet⟩
    · rw [Nat.zero_add] at ht
      exact .inr ⟨g',t,hloop,ht ▸ htaken⟩

theorem finish_spec (h : Ingested head limits mode wire payload g) :
    (∃ g' e, g.finish env = (g',.error e) ∧ Stopped payload [] g e g') ∨
    ∃ g', g.finish env = (g',.ok ()) ∧ Ingested head limits mode wire payload g' ∧
      g'.complete = true := by
  unfold finish
  rw [h.stored.failure]
  dsimp only
  split
  · exact .inl ⟨_,_,rfl,h.stored.early (by exact fail_failed _ _) (by rfl) []⟩
  · unfold HttpBodyDecoder.finish
    cases hfailure : g.decoder.failure with
    | some e => exact .inl ⟨_,_,rfl,h.stored.early (by exact fail_failed _ _) (by rfl) []⟩
    | none =>
      cases hdone : g.decoder.complete with
      | false =>
        exact .inl ⟨_,_,rfl,h.stored.early (by exact fail_failed _ _) (by rfl) []⟩
      | true =>
        rcases finalize_spec env h.next.stored with ⟨g1,e,hfinal,hfailed,hsome⟩ | ⟨g1,hfinal,hstored,hfin,hdec⟩
        · exact .inl ⟨g1,e,hfinal,hfailed,[],g.decoder,[],List.nil_prefix,.nil _,
            fun hempty => absurd (List.append_eq_nil_iff.mp hempty).1 hsome⟩
        · have hdecoder : g1.decoder.complete = true := by
            rw [hdec]
            exact hdone
          have hingested : Ingested head limits mode wire payload g1 :=
            ⟨hstored,by rw [hdec]; exact h.reads,hfin.trans hdecoder.symm⟩
          exact .inr ⟨g1,hfinal,hingested,hingested.complete.trans hdecoder⟩

end RequestBodyIngestor
end SpareNode.Http
