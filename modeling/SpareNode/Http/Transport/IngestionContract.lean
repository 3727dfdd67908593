import SpareNode.Http.Transport.IngestionRuns

/-! # The contract of request-body ingestion

Arbitrary sequences of feeds and finishes, each under its own storage, clock and stop token. The
bytes that successful feeds took are kept next to the ingestor.
-/
namespace SpareNode.Http
open Storage Transducer HttpBodyDecoder RequestBodyIngestor

inductive IngestCall where
  | feed (env : StorageEnvironment) (input : Bytes)
  | finish (env : StorageEnvironment)

def IngestCall.input : IngestCall → Bytes
  | .feed _ input => input
  | .finish _ => []

/-- The bytes that a sequence of calls brings, read or not. -/
def fedBytes (calls : List IngestCall) : Bytes := (calls.map IngestCall.input).flatten

/-- An ingestor and the wire bytes that its feeds have taken. -/
structure IngestRun where
  ingestor : RequestBodyIngestor
  taken : Bytes

namespace IngestRun

def start (head : HttpRequestHead) (limits : HttpRequestParserLimits) (mode : RequestBodyStorageMode) :
    IngestRun := ⟨.create head limits mode,[]⟩

def perform (run : IngestRun) : IngestCall → IngestRun × Option RequestBodyIngestionError
  | .feed env input =>
    match run.ingestor.feed env input with
    | (g,.ok t) => (⟨g,run.taken ++ input.take t.consumed⟩,none)
    | (g,.error e) => (⟨g,run.taken⟩,some e)
  | .finish env =>
    match run.ingestor.finish env with
    | (g,.ok ()) => (⟨g,run.taken⟩,none)
    | (g,.error e) => (⟨g,run.taken⟩,some e)

def after (run : IngestRun) (calls : List IngestCall) : IngestRun :=
  calls.foldl (fun run call => (run.perform call).1) run

end IngestRun

variable {head : HttpRequestHead} {limits : HttpRequestParserLimits} {mode : RequestBodyStorageMode}
variable {run : IngestRun} {fed : Bytes} {e : RequestBodyIngestionError}

/-- A run in which every call has succeeded. -/
structure Alive (head : HttpRequestHead) (limits : HttpRequestParserLimits)
    (mode : RequestBodyStorageMode) (fed : Bytes) (run : IngestRun) : Prop where
  ingested : ∃ payload, Ingested head limits mode run.taken payload run.ingestor
  front : ∃ rest, fed = run.taken ++ rest ∧ (rest = [] ∨ run.ingestor.complete = true)

/-- A run in which some call has failed. -/
structure Dead (head : HttpRequestHead) (limits : HttpRequestParserLimits) (fed : Bytes)
    (e : RequestBodyIngestionError) (run : IngestRun) : Prop where
  failed : Failed e run.ingestor
  taken : run.taken <+: fed
  quiet : ∃ w d o, w <+: fed ∧ machine.Reads (HttpBodyDecoder.create head limits) w d o ∧
    (o = [] → run.ingestor.history = [])

theorem alive_start : Alive head limits mode [] (.start head limits mode) := by
  refine ⟨⟨[],⟨⟨rfl,rfl,rfl,?_⟩,.nil _,rfl⟩⟩,[],rfl,.inl rfl⟩
  cases mode with
  | memory => exact .memory rfl rfl rfl rfl rfl
  | temporaryFile => exact .untouched rfl rfl rfl rfl rfl rfl

/-- After a failure every call returns it and changes nothing. -/
theorem perform_failed (h : Failed e run.ingestor) (call : IngestCall) :
    run.perform call = (run,some e) := by
  cases call with
  | feed env input =>
    unfold IngestRun.perform RequestBodyIngestor.feed
    rw [h.failure]
  | finish env =>
    unfold IngestRun.perform RequestBodyIngestor.finish
    rw [h.failure]

theorem Dead.more (h : Dead head limits fed e run) (input : Bytes) :
    Dead head limits (fed ++ input) e run := by
  obtain ⟨w,d,o,hw,hr,hquiet⟩ := h.quiet
  exact ⟨h.failed,h.taken.trans (List.prefix_append _ _),w,d,o,hw.trans (List.prefix_append _ _),hr,
    hquiet⟩

theorem halted_of_complete {g : RequestBodyIngestor} {wire payload : Bytes}
    (h : Ingested head limits mode wire payload g) (hcomplete : g.complete = true) :
    machine.halted g.decoder = true :=
  halted_iff.mpr (.inl (complete_iff.mp (h.complete.symm.trans hcomplete)).1)

theorem Alive.stopped {g : RequestBodyIngestor} {payload input : Bytes} (h : Alive head limits mode fed run)
    (hingested : Ingested head limits mode run.taken payload run.ingestor)
    (hstopped : Stopped payload input run.ingestor e g) :
    Dead head limits (fed ++ input) e ⟨g,run.taken⟩ := by
  obtain ⟨rest,rfl,hrest⟩ := h.front
  obtain ⟨hfailed,u,d,o,hu,hr,hquiet⟩ := hstopped
  have hinside : run.taken ++ u <+: run.taken ++ rest ++ input := by
    rcases hrest with rfl | hcomplete
    · rw [List.append_nil]
      exact (List.prefix_append_right_inj _).mpr hu
    · obtain ⟨hnil,-,-⟩ := hr.halted_nil (halted_of_complete hingested hcomplete)
      rw [hnil,List.append_nil,List.append_assoc]
      exact List.prefix_append _ _
  refine ⟨hfailed,?_,run.taken ++ u,d,payload ++ o,hinside,hingested.reads.trans hr,hquiet⟩
  rw [List.append_assoc]
  exact List.prefix_append _ _

theorem Alive.taken {g : RequestBodyIngestor} {payload input : Bytes} {count : ℕ}
    (h : Alive head limits mode fed run)
    (hingested : Ingested head limits mode run.taken payload run.ingestor)
    (htaken : Taken head limits mode run.taken payload input run.ingestor count g) :
    Alive head limits mode (fed ++ input) ⟨g,run.taken ++ input.take count⟩ := by
  obtain ⟨rest,rfl,hrest⟩ := h.front
  obtain ⟨u,v,o,rfl,rfl,hr,hnext,hend⟩ := htaken
  rw [List.take_left]
  refine ⟨⟨_,hnext⟩,?_⟩
  rcases hrest with rfl | hcomplete
  · exact ⟨v,by simp,hend⟩
  · obtain ⟨rfl,hsame,-⟩ := hr.halted_nil (halted_of_complete hingested hcomplete)
    refine ⟨rest ++ v,by simp,.inr ?_⟩
    change g.complete = true
    rw [hnext.complete,hsame,← hingested.complete]
    exact hcomplete

/-- A call of a run without a failure either keeps it so or ends it with the error returned. -/
theorem Alive.perform (h : Alive head limits mode fed run) (call : IngestCall) :
    (Alive head limits mode (fed ++ call.input) (run.perform call).1 ∧ (run.perform call).2 = none) ∨
    ∃ e, Dead head limits (fed ++ call.input) e (run.perform call).1 ∧ (run.perform call).2 = some e := by
  obtain ⟨payload,hingested⟩ := h.ingested
  cases call with
  | feed env input =>
    rcases feed_spec env input hingested with ⟨g,e,hfeed,hstopped⟩ | ⟨g,t,hfeed,htaken⟩
    · simp only [IngestRun.perform,hfeed]
      exact .inr ⟨e,h.stopped hingested hstopped,rfl⟩
    · simp only [IngestRun.perform,hfeed]
      exact .inl ⟨h.taken hingested htaken,trivial⟩
  | finish env =>
    rcases finish_spec env hingested with ⟨g,e,hfinish,hstopped⟩ | ⟨g,hfinish,hnext,hcomplete⟩
    · simp only [IngestRun.perform,hfinish]
      exact .inr ⟨e,h.stopped hingested hstopped,rfl⟩
    · simp only [IngestRun.perform,hfinish]
      obtain ⟨rest,hfed,-⟩ := h.front
      exact .inl ⟨⟨⟨payload,hnext⟩,rest,(List.append_nil _).trans hfed,.inr hcomplete⟩,trivial⟩

theorem fedBytes_append (before after : List IngestCall) :
    fedBytes (before ++ after) = fedBytes before ++ fedBytes after := by
  rw [fedBytes,List.map_append,List.flatten_append,fedBytes,fedBytes]

theorem fedBytes_single (call : IngestCall) : fedBytes [call] = call.input := by
  rw [fedBytes,List.map_singleton,List.flatten_singleton]

theorem after_snoc (calls : List IngestCall) (call : IngestCall) :
    run.after (calls ++ [call]) = ((run.after calls).perform call).1 := by
  rw [IngestRun.after,List.foldl_append]
  rfl

theorem after_failed (h : Failed e run.ingestor) (calls : List IngestCall) : run.after calls = run := by
  induction calls with
  | nil => rfl
  | cons call rest ih =>
    rw [IngestRun.after,List.foldl_cons,perform_failed h call]
    exact ih

theorem after_append (before after : List IngestCall) :
    run.after (before ++ after) = (run.after before).after after := List.foldl_append

/-- A run keeps its ingestor sound or has failed in it. -/
theorem run_cases (head : HttpRequestHead) (limits : HttpRequestParserLimits)
    (mode : RequestBodyStorageMode) (calls : List IngestCall) :
    Alive head limits mode (fedBytes calls) ((IngestRun.start head limits mode).after calls) ∨
      ∃ e, Dead head limits (fedBytes calls) e ((IngestRun.start head limits mode).after calls) := by
  induction calls using List.reverseRecOn with
  | nil => exact .inl alive_start
  | append_singleton calls call ih =>
    rw [after_snoc,fedBytes_append,fedBytes_single]
    rcases ih with halive | ⟨e,hdead⟩
    · rcases halive.perform call with ⟨hnext,-⟩ | ⟨e,hdead,-⟩
      · exact .inl hnext
      · exact .inr ⟨e,hdead⟩
    · rw [perform_failed hdead.failed]
      exact .inr ⟨e,hdead.more _⟩

/-- Where a complete ingestor offers its payload, and what the temporary storage was asked for it. -/
def Offers (mode : RequestBodyStorageMode) (payload : Bytes) (g : RequestBodyIngestor) : Prop :=
  match mode with
  | .memory => g.completedMemoryBody = some payload ∧ g.completedArtifact = none ∧ g.history = []
  | .temporaryFile =>
    g.completedMemoryBody = none ∧
      if payload = [] then g.completedArtifact = none ∧ g.history = []
      else g.completedArtifact = some payload ∧ ∃ pieces, pieces.flatten = payload ∧
        g.history = fileHistory pieces ++ [(.complete,true)]

theorem offers_of_complete {g : RequestBodyIngestor} {wire payload : Bytes}
    (h : Ingested head limits mode wire payload g) (hcomplete : g.complete = true) :
    Offers mode payload g := by
  have hfinished : g.finalized = true := h.finalized.trans (h.complete.symm.trans hcomplete)
  have hmode := h.stored.mode
  have hartifact : g.completedArtifact = g.artifact := by rw [completedArtifact,if_pos hcomplete]
  cases h.stored.sink with
  | memory stored body writer artifact history =>
    obtain rfl : mode = .memory := hmode.symm.trans stored
    refine ⟨?_,hartifact.trans artifact,history⟩
    rw [completedMemoryBody,if_pos ⟨hcomplete,stored⟩,body]
  | untouched stored empty body writer artifact history =>
    obtain rfl : mode = .temporaryFile := hmode.symm.trans stored
    refine ⟨?_,?_⟩
    · rw [completedMemoryBody,if_neg (by simp [stored])]
    · rw [if_pos empty]
      exact ⟨hartifact.trans artifact,history⟩
  | writing stored pieces whole some_ unfinished body writer artifact history =>
    exact absurd (unfinished.symm.trans hfinished) (by decide)
  | closed stored pieces whole some_ finished body writer artifact history =>
    obtain rfl : mode = .temporaryFile := hmode.symm.trans stored
    refine ⟨?_,?_⟩
    · rw [completedMemoryBody,if_neg (by simp [stored])]
    · rw [if_neg some_]
      exact ⟨hartifact.trans artifact,pieces,whole,history⟩

theorem failed_incomplete {g : RequestBodyIngestor} (h : Failed e g) :
    g.complete = false ∧ g.completedArtifact = none ∧ g.completedMemoryBody = none := by
  have hfalse : g.complete = false := by simp [RequestBodyIngestor.complete,h.failure]
  exact ⟨hfalse,by simp [completedArtifact,hfalse],by simp [completedMemoryBody,hfalse]⟩

theorem run_of_isBody_nil {wire : Bytes} (h : IsBody head limits wire [])
    (hsize : head.consumedBytes + wire.length ≤ sizeMax) (hfed : wire <+: fed) :
    (machine.run (HttpBodyDecoder.create head limits) fed).2.2 = [] := by
  obtain ⟨rest,rfl⟩ := hfed
  unfold IsBody at h
  split at h
  · rename_i hc
    obtain ⟨t,rfl,ht,hpayload⟩ := h
    obtain ⟨d,hr,hcomplete⟩ := reads_text hc ht hsize
    rw [hr.run_eq (.inl (halted_iff.mpr (.inl (complete_iff.mp hcomplete).1)))]
    exact hpayload
  · rename_i hc
    obtain ⟨hlength,hwire⟩ := h
    have hzero : head.contentLength = 0 := by
      rw [← hlength,← hwire]
      rfl
    have hphase : (HttpBodyDecoder.create head limits).phase = .done := by
      simp [HttpBodyDecoder.create,hc,hzero]
    have hrun := (Reads.nil (T := machine) (HttpBodyDecoder.create head limits)).run_eq
      (.inl (halted_iff.mpr (.inl hphase))) (v := wire ++ rest)
    rw [List.nil_append] at hrun
    rw [hrun]

/-- Along a run that decodes nothing no temporary file is asked for. -/
theorem history_nil {calls : List IngestCall}
    (h : (machine.run (HttpBodyDecoder.create head limits) (fedBytes calls)).2.2 = []) :
    ((IngestRun.start head limits mode).after calls).ingestor.history = [] := by
  have hpiece {w o : Bytes} {d : HttpBodyDecoder} (hw : w <+: fedBytes calls)
      (hr : machine.Reads (HttpBodyDecoder.create head limits) w d o) : o = [] := by
    obtain ⟨rest,hrest⟩ := hw
    rw [← hrest,hr.run_append rest] at h
    exact (List.append_eq_nil_iff.mp h).1
  rcases run_cases head limits mode calls with ⟨⟨payload,hingested⟩,rest,hfed,-⟩ | ⟨e,-,-,w,d,o,hw,hr,hquiet⟩
  · exact hingested.stored.sink.quiet (hpiece ⟨rest,hfed.symm⟩ hingested.reads)
  · exact hquiet (hpiece hw hr)

/-- Ingestion yields whole bodies only: over any calls and any failures, a complete ingestor offers
exactly the payload of a body that was fed, a failure is final, a feed stops at the end of its input
or of the body, and an empty body leaves the temporary storage alone. -/
theorem ingestion_whole (head : HttpRequestHead) (limits : HttpRequestParserLimits)
    (mode : RequestBodyStorageMode) (calls : List IngestCall) :
    let start := IngestRun.start head limits mode
    let run := start.after calls
    run.taken <+: fedBytes calls ∧
    (run.ingestor.complete = true → ∃ payload, IsBody head limits run.taken payload ∧
      (machine.run (HttpBodyDecoder.create head limits) (fedBytes calls)).2.2 = payload ∧
      run.ingestor.bodySize = payload.length ∧ Offers mode payload run.ingestor) ∧
    (∀ before call after e, calls = before ++ call :: after →
      ((start.after before).perform call).2 = some e →
        run.ingestor.complete = false ∧ run.ingestor.completedArtifact = none ∧
          run.ingestor.completedMemoryBody = none ∧ ∀ next, run.perform next = (run,some e)) ∧
    (∀ env input g t, run.ingestor.feed env input = (g,.ok t) → t.consumed ≤ input.length ∧
      (t.consumed = input.length ∨ g.complete = true ∧
        ∃ payload, IsBody head limits (run.taken ++ input.take t.consumed) payload)) ∧
    ((machine.run (HttpBodyDecoder.create head limits) (fedBytes calls)).2.2 = [] →
      run.ingestor.history = []) ∧
    (∀ wire, IsBody head limits wire [] → head.consumedBytes + wire.length ≤ sizeMax →
      wire <+: fedBytes calls → run.ingestor.history = []) := by
  intro start run
  have hrun := run_cases head limits mode calls
  refine ⟨?_,?_,?_,
    ?_,history_nil,?_⟩
  · rcases hrun with halive | ⟨e,hdead⟩
    · obtain ⟨rest,hfed,-⟩ := halive.front
      exact ⟨rest,hfed.symm⟩
    · exact hdead.taken
  · intro hcomplete
    rcases hrun with ⟨⟨payload,hingested⟩,rest,hfed,-⟩ | ⟨e,hdead⟩
    · have hhalted := halted_of_complete hingested hcomplete
      refine ⟨payload,isBody_of_complete hingested.reads (hingested.complete.symm.trans hcomplete),?_,
        hingested.stored.size,offers_of_complete hingested hcomplete⟩
      rw [hfed,hingested.reads.run_eq (.inl hhalted)]
    · exact absurd ((failed_incomplete hdead.failed).1.symm.trans hcomplete) (by decide)
  · intro before call after e hcalls herror
    have hbefore := run_cases head limits mode before
    have hfailed : Failed e ((start.after before).perform call).1.ingestor := by
      rcases hbefore with halive | ⟨e',hdead⟩
      · rcases halive.perform call with ⟨-,hnone⟩ | ⟨e',hdead,hsome⟩
        · exact absurd (hnone.symm.trans herror) (by simp)
        · obtain rfl := Option.some.inj (hsome.symm.trans herror)
          exact hdead.failed
      · have hsame := perform_failed hdead.failed call
        rw [hsame] at herror
        obtain rfl := Option.some.inj herror
        rw [hsame]
        exact hdead.failed
    have hend : run = ((start.after before).perform call).1 := by
      have hsplit : calls = (before ++ [call]) ++ after := by simp [hcalls]
      change start.after calls = _
      rw [hsplit,after_append,after_snoc,after_failed hfailed]
    rw [hend]
    obtain ⟨hincomplete,hartifact,hbody⟩ := failed_incomplete hfailed
    exact ⟨hincomplete,hartifact,hbody,fun next => perform_failed hfailed next⟩
  · intro env input g t hfeed
    rcases hrun with ⟨⟨payload,hingested⟩,-⟩ | ⟨e,hdead⟩
    · rcases feed_spec env input hingested with ⟨g1,e,hstop,-⟩ | ⟨g1,t1,hok,u,v,o,rfl,hcount,hr,hnext,hend⟩
      · exact absurd (hstop.symm.trans hfeed) (by simp)
      · have hpair : g1 = g ∧ Except.ok t1 = Except.ok t := Prod.mk.inj (hok.symm.trans hfeed)
        obtain ⟨rfl,hsame⟩ := hpair
        obtain rfl := Except.ok.inj hsame
        rw [hcount,List.length_append,List.take_left]
        refine ⟨Nat.le_add_right _ _,hend.imp ?_ ?_⟩
        · intro hnil
          rw [hnil]
          rfl
        · intro hcomplete
          exact ⟨hcomplete,_,isBody_of_complete hnext.reads (hnext.complete.symm.trans hcomplete)⟩
    · unfold RequestBodyIngestor.feed at hfeed
      rw [hdead.failed.failure] at hfeed
      exact absurd (congrArg Prod.snd hfeed) (by simp)
  · intro wire hbody hsize hfed
    exact history_nil (run_of_isBody_nil hbody hsize hfed)

end SpareNode.Http
