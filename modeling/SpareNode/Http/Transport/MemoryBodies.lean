import SpareNode.Http.Request.BodyDecoderCounters
import SpareNode.Http.Transport.BufferedRequest
import SpareNode.Http.Transport.IngestionContract

/-! # Bodies in memory

A request whose policy is memory storage asks nothing of the temporary storage, however it is
fed, and its body stays within the policy's own limit. A declared length above that limit ends
the call that completes the head.
-/
namespace SpareNode.Http
open Storage HttpBodyDecoder

def Limited (limit : ℕ) (d : HttpBodyDecoder) : Prop :=
  (∃ limits last, sizeMax ≤ last ∧ limits.maxBodyBytes ≤ limit ∧ Bounded limits last d) ∨
    d.failure.isSome = true ∧ d.decoded = 0

/-- Nothing has been asked of the temporary storage, and the body in memory and the bytes still
to be stored have been decoded. -/
structure InMemory (limit pending : ℕ) (g : RequestBodyIngestor) : Prop where
  mode : g.storageMode = .memory
  writer : g.writer = none
  artifact : g.artifact = none
  history : g.history = []
  size : (g.memoryBody.getD []).length + pending ≤ g.decoder.decoded
  decoder : Limited limit g.decoder

section Ingestor
variable {limit pending : ℕ} {d : HttpBodyDecoder} {g : RequestBodyIngestor} (env : StorageEnvironment)

theorem Limited.decoded_le (h : Limited limit d) : d.decoded ≤ limit := by
  rcases h with ⟨limits,last,-,hlimit,hbounded⟩ | ⟨-,hdecoded⟩
  · have := hbounded.body
    omega
  · omega

theorem Limited.feed (h : Limited limit d) (input : Bytes) (capacity : ℕ) :
    Limited limit (d.feed input capacity).1 := by
  rcases h with ⟨limits,last,hlast,hlimit,hbounded⟩ | ⟨hfailure,hdecoded⟩
  · exact Or.inl ⟨limits,last,hlast,hlimit,feed_bounded hlast hbounded input capacity⟩
  · obtain ⟨e,he⟩ := Option.isSome_iff_exists.mp hfailure
    have hsame : (d.feed input capacity).1 = d := by
      unfold HttpBodyDecoder.feed
      rw [he]
    rw [hsame]
    exact Or.inr ⟨hfailure,hdecoded⟩

theorem Limited.finish (h : Limited limit d) : Limited limit d.finish.1 := by
  rcases h with ⟨limits,last,hlast,hlimit,hbounded⟩ | ⟨hfailure,hdecoded⟩
  · exact Or.inl ⟨limits,last,hlast,hlimit,finish_bounded hbounded⟩
  · obtain ⟨e,he⟩ := Option.isSome_iff_exists.mp hfailure
    have hsame : d.finish.1 = d := by
      unfold HttpBodyDecoder.finish
      rw [he]
    rw [hsame]
    exact Or.inr ⟨hfailure,hdecoded⟩

theorem finish_decoded (d : HttpBodyDecoder) : d.finish.1.decoded = d.decoded := by
  unfold HttpBodyDecoder.finish
  split
  · rfl
  · split <;> rfl

/-- A decoder whose head declares more than the limit starts with its failure. -/
theorem create_limited {head : HttpRequestHead} {limits : HttpRequestParserLimits}
    (hchunked : head.chunked = true → head.contentLength = 0) (hlimit : limits.maxBodyBytes ≤ limit) :
    Limited limit (create head limits) := by
  by_cases hlength : head.contentLength ≤ limits.maxBodyBytes
  · exact Or.inl ⟨limits,max sizeMax head.consumedBytes,le_max_left _ _,hlimit,
      create_bounded hlength (le_max_right _ _)⟩
  · have hplain : head.chunked = false := by
      cases h : head.chunked with
      | false => rfl
      | true =>
        rw [hchunked h] at hlength
        exact absurd (Nat.zero_le _) hlength
    right
    unfold create
    dsimp only
    rw [if_pos ⟨hplain,Nat.not_le.mp hlength⟩]
    exact ⟨rfl,rfl⟩

theorem next_inMemory (h : InMemory limit pending g) : InMemory limit pending g.next :=
  ⟨h.mode,h.writer,h.artifact,h.history,h.size,h.decoder⟩

theorem fail_inMemory {α : Type} (h : InMemory limit pending g) (error : RequestBodyIngestionError) :
    InMemory limit 0 (g.fail (α := α) error).1 :=
  ⟨h.mode,rfl,rfl,h.history,(Nat.le_add_right _ _).trans h.size,h.decoder⟩

theorem finalize_inMemory (h : InMemory limit 0 g) : InMemory limit 0 (g.finalize env).1 := by
  unfold RequestBodyIngestor.finalize
  split
  · exact h
  · rw [h.writer]
    exact ⟨h.mode,rfl,h.artifact,h.history,h.size,h.decoder⟩

theorem store_inMemory {output : Bytes} (h : InMemory limit output.length g) :
    InMemory limit 0 (g.store env output).1 := by
  have hsame : InMemory limit 0 g :=
    ⟨h.mode,h.writer,h.artifact,h.history,(Nat.le_add_right _ _).trans h.size,h.decoder⟩
  unfold RequestBodyIngestor.store
  split
  · exact hsame
  · unfold RequestBodyIngestor.persist
    split
    · exact fail_inMemory (next_inMemory h) _
    · rw [if_pos h.mode]
      split
      · refine ⟨h.mode,h.writer,h.artifact,h.history,?_,h.decoder⟩
        have hsize := h.size
        cases hmemory : g.memoryBody with
        | none => simp [RequestBodyIngestor.next,hmemory]
        | some body =>
          rw [hmemory,Option.getD_some] at hsize
          simpa [RequestBodyIngestor.next,hmemory] using hsize
      · exact fail_inMemory (next_inMemory (next_inMemory h)) _

theorem feedLoop_inMemory (h : InMemory limit 0 g) (input : Bytes) (total : HttpBodyDecodeProgress) :
    InMemory limit 0 (g.feedLoop env input total).1 := by
  induction hn : input.length using Nat.strong_induction_on generalizing g input total with
  | _ n ih =>
    subst hn
    rw [RequestBodyIngestor.feedLoop.eq_def]
    have hlimited := h.decoder.feed input bodyDecodeBufferBytes
    have hdecoded := feed_decoded g.decoder input bodyDecodeBufferBytes
    have hsize := h.size
    rcases hfeed : g.decoder.feed input bodyDecodeBufferBytes with ⟨d,e | p⟩
    · rw [hfeed] at hlimited hdecoded
      have hfed : InMemory limit 0 { g with decoder := d } :=
        ⟨h.mode,h.writer,h.artifact,h.history,hsize.trans hdecoded.1,hlimited⟩
      exact fail_inMemory hfed _
    · rw [hfeed] at hlimited hdecoded
      have hyield := hdecoded.2 p rfl
      have hfed : InMemory limit p.output.length { g with decoder := d } :=
        ⟨h.mode,h.writer,h.artifact,h.history,by dsimp only at hyield ⊢; omega,hlimited⟩
      have hstored := store_inMemory env hfed
      dsimp only
      split
      · rename_i g' e heq
        rwa [heq] at hstored
      · rename_i g' heq
        rw [heq] at hstored
        split
        · have hfinal := finalize_inMemory env hstored
          split
          · rename_i g'' e hfinalize
            rwa [hfinalize] at hfinal
          · rename_i g'' hfinalize
            rwa [hfinalize] at hfinal
        · split
          · exact hstored
          · split
            · exact hstored
            · rename_i hstuck hrest
              refine ih _ ?_ hstored _ _ rfl
              have hle := feed_output_le hfeed
              have hpos : 0 < p.consumed := by
                by_contra hz
                exact hstuck ⟨by omega,List.length_eq_zero_iff.mp (by omega)⟩
              have hlen := List.length_pos_iff.mpr hrest
              rw [List.length_drop] at hlen ⊢
              omega

theorem feed_inMemory (h : InMemory limit 0 g) (input : Bytes) : InMemory limit 0 (g.feed env input).1 := by
  unfold RequestBodyIngestor.feed
  split
  · exact h
  · split
    · exact fail_inMemory (next_inMemory h) _
    · exact feedLoop_inMemory env (next_inMemory h) input _

theorem finish_inMemory (h : InMemory limit 0 g) : InMemory limit 0 (g.finish env).1 := by
  have hlimited := h.decoder.finish
  have hsize := h.size
  rw [← finish_decoded] at hsize
  have hended : InMemory limit 0 { g.next with decoder := g.decoder.finish.1 } :=
    ⟨h.mode,h.writer,h.artifact,h.history,hsize,hlimited⟩
  unfold RequestBodyIngestor.finish
  split
  · exact h
  · split
    · exact fail_inMemory (next_inMemory h) _
    · split
      · rename_i d e heq
        rw [heq] at hended
        exact fail_inMemory hended _
      · rename_i d heq
        rw [heq] at hended
        exact finalize_inMemory env hended

/-- A declared length beyond the limits fails with the first bytes fed, be there any or not. -/
theorem ingestor_declared {head : HttpRequestHead} {limits : HttpRequestParserLimits} (hplain : head.chunked = false)
    (hlength : limits.maxBodyBytes < head.contentLength) (mode : RequestBodyStorageMode) (input : Bytes) :
    ∃ e, ((RequestBodyIngestor.create head limits mode).feed env input).2 = .error e := by
  have hfailure : ∃ e, (create head limits).failure = some e := by
    unfold create
    dsimp only
    rw [if_pos ⟨hplain,hlength⟩]
    exact ⟨_,rfl⟩
  obtain ⟨e,he⟩ := hfailure
  have hdecoder : (create head limits).feed input bodyDecodeBufferBytes = (create head limits,.error e) := by
    unfold HttpBodyDecoder.feed
    rw [he]
  unfold RequestBodyIngestor.feed
  split
  · exact ⟨_,rfl⟩
  · split
    · exact ⟨_,rfl⟩
    · rw [RequestBodyIngestor.feedLoop.eq_def]
      have hnext : (RequestBodyIngestor.create head limits mode).next.decoder = create head limits := rfl
      rw [hnext,hdecoder]
      exact ⟨_,rfl⟩

theorem perform_inMemory {run : IngestRun} (h : InMemory limit 0 run.ingestor) (call : IngestCall) :
    InMemory limit 0 (run.perform call).1.ingestor := by
  cases call with
  | feed env input =>
    have hfed := feed_inMemory env h input
    unfold IngestRun.perform
    dsimp only
    split
    · rename_i g t heq
      rwa [heq] at hfed
    · rename_i g e heq
      rwa [heq] at hfed
  | finish env =>
    have hended := finish_inMemory env h
    unfold IngestRun.perform
    dsimp only
    split
    · rename_i g heq
      rwa [heq] at hended
    · rename_i g e heq
      rwa [heq] at hended

/-- In no run of a memory body is the temporary storage asked for anything. -/
theorem after_inMemory {head : HttpRequestHead} {limits : HttpRequestParserLimits}
    (hchunked : head.chunked = true → head.contentLength = 0) (hlimit : limits.maxBodyBytes ≤ limit)
    (calls : List IngestCall) : InMemory limit 0 ((IngestRun.start head limits .memory).after calls).ingestor := by
  induction calls using List.reverseRecOn with
  | nil => exact ⟨rfl,rfl,rfl,rfl,Nat.zero_le _,create_limited hchunked hlimit⟩
  | append_singleton calls call ih =>
    rw [after_snoc]
    exact perform_inMemory ih call

/-- A complete ingestor has taken a whole body, whose payload is what it offers. -/
theorem complete_body {head : HttpRequestHead} {limits : HttpRequestParserLimits} {mode : RequestBodyStorageMode}
    {calls : List IngestCall}
    (hcomplete : ((IngestRun.start head limits mode).after calls).ingestor.complete = true) :
    ∃ wire payload, wire <+: fedBytes calls ∧ IsBody head limits wire payload ∧
      Offers mode payload ((IngestRun.start head limits mode).after calls).ingestor := by
  rcases run_cases head limits mode calls with ⟨⟨payload,hingested⟩,rest,hfed,-⟩ | ⟨e,hdead⟩
  · exact ⟨_,payload,⟨rest,hfed.symm⟩,isBody_of_complete hingested.reads (hingested.complete.symm.trans hcomplete),
      offers_of_complete hingested hcomplete⟩
  · exact absurd ((failed_incomplete hdead.failed).1.symm.trans hcomplete) (by decide)

end Ingestor

namespace BufferedRequest

/-- The request that a call leaves, be it with an error. -/
def perform (r : BufferedRequest) : IngestCall → BufferedRequest
  | .feed env input => (r.feed env input).1
  | .finish env => (r.finish env).1

def runCalls (r : BufferedRequest) (calls : List IngestCall) : BufferedRequest := calls.foldl perform r

theorem runCalls_snoc (r : BufferedRequest) (calls : List IngestCall) (call : IngestCall) :
    r.runCalls (calls ++ [call]) = (r.runCalls calls).perform call := by
  rw [runCalls,List.foldl_append]
  rfl

section Request
variable {limits : HttpRequestParserLimits} {select : HttpRequestHead → RequestBodyStoragePolicy}
  {r : BufferedRequest} {fed : Bytes} (env : StorageEnvironment)

abbrev bodyRun (limits : HttpRequestParserLimits) (select : HttpRequestHead → RequestBodyStoragePolicy)
    (head : HttpRequestHead) : IngestRun :=
  .start head (bodyLimits limits (select head)) (select head).mode

/-- A request is a buffer that ends what was fed, or a head and a run of its ingestor on all that
was fed behind the head. -/
structure Tracks (limits : HttpRequestParserLimits) (select : HttpRequestHead → RequestBodyStoragePolicy)
    (fed : Bytes) (r : BufferedRequest) : Prop where
  configured : r.limits = limits
  selector : r.storagePolicySelector = some select
  headless : r.head = none → r.ingestor = none ∧ r.metadata <:+ fed
  body : ∀ head, r.head = some head → (head.chunked = true → head.contentLength = 0) ∧
    ∃ before calls, fed = before ++ r.metadata ++ fedBytes calls ∧
      r.ingestor = some ((bodyRun limits select head).after calls).ingestor

theorem feedBody_metadata (r : BufferedRequest) (metadata input : Bytes) :
    (({ r with metadata := metadata } : BufferedRequest).feedBody env input).1 =
      { (r.feedBody env input).1 with metadata := metadata } := by
  unfold feedBody
  dsimp only
  split
  · rfl
  · split <;> rfl

theorem feedBody_tracks {head : HttpRequestHead} (h : Tracks limits select fed r) (hhead : r.head = some head)
    (input : Bytes) : Tracks limits select (fed ++ input) (r.feedBody env input).1 := by
  obtain ⟨hchunked,before,calls,hfed,hg⟩ := h.body head hhead
  have hnext : (r.feedBody env input).1 = { r with
      ingestor := some ((bodyRun limits select head).after (calls ++ [.feed env input])).ingestor } := by
    unfold feedBody
    rw [hg,after_snoc]
    unfold IngestRun.perform
    dsimp only
    split
    · rename_i g e heq
      rw [heq]
    · rename_i g p heq
      rw [heq]
  rw [hnext]
  refine ⟨h.configured,h.selector,fun hnone => absurd (hhead.symm.trans hnone) (by simp),?_⟩
  intro other hother
  cases hhead.symm.trans hother
  refine ⟨hchunked,before,calls ++ [.feed env input],?_,rfl⟩
  rw [fedBytes_append,fedBytes_single,hfed,List.append_assoc]
  rfl

theorem finish_tracks (h : Tracks limits select fed r) : Tracks limits select fed (r.finish env).1 := by
  cases hhead : r.head with
  | none =>
    have hsame : (r.finish env).1 = r := by
      unfold finish
      rw [(h.headless hhead).1]
    rwa [hsame]
  | some head =>
    obtain ⟨hchunked,before,calls,hfed,hg⟩ := h.body head hhead
    have hnext : (r.finish env).1 = { r with
        ingestor := some ((bodyRun limits select head).after (calls ++ [.finish env])).ingestor } := by
      unfold finish
      rw [hg,after_snoc]
      unfold IngestRun.perform
      dsimp only
      split
      · rename_i g e heq
        rw [heq]
      · rename_i g heq
        rw [heq]
    rw [hnext]
    refine ⟨h.configured,h.selector,fun hnone => absurd (hhead.symm.trans hnone) (by simp),?_⟩
    intro other hother
    cases hhead.symm.trans hother
    refine ⟨hchunked,before,calls ++ [.finish env],?_,rfl⟩
    rw [fedBytes_append,fedBytes_single,hfed]
    exact (List.append_nil _).symm.trans (List.append_assoc _ _ _)

theorem feed_tracks (h : Tracks limits select fed r) (input : Bytes) :
    Tracks limits select (fed ++ input) (r.feed env input).1 := by
  cases hhead : r.head with
  | some head =>
    rw [feed,if_pos (by rw [hhead]; rfl)]
    exact feedBody_tracks env h hhead input
  | none =>
    obtain ⟨hnone,before,hbefore⟩ := h.headless hhead
    unfold feed
    rw [hhead,if_neg (by decide)]
    dsimp only
    split
    · exact ⟨h.configured,h.selector,fun _ => ⟨hnone,List.nil_suffix⟩,fun head hsome => nomatch hsome⟩
    · refine ⟨h.configured,h.selector,fun _ => ⟨hnone,before,?_⟩,fun head hsome => nomatch hsome⟩
      rw [← hbefore,List.append_assoc]
    · rename_i head hparse
      rw [h.selector,h.configured]
      dsimp only
      have hstart : Tracks limits select (before ++ (r.metadata ++ input).take head.consumedBytes)
          { r with
            limits := limits
            storagePolicySelector := some select
            metadata := (r.metadata ++ input).take head.consumedBytes
            head := some head
            ingestor := some (bodyRun limits select head).ingestor } := by
        refine ⟨rfl,rfl,(fun hsome => nomatch hsome),?_⟩
        intro other hother
        cases hother
        exact ⟨head_framing hparse,before,[],by simp [fedBytes],rfl⟩
      have hfed := feedBody_tracks env hstart rfl ((r.metadata ++ input).drop head.consumedBytes)
      rw [List.append_assoc,List.take_append_drop,← List.append_assoc,hbefore] at hfed
      have hcut := feedBody_metadata env
        { r with
          limits := limits
          storagePolicySelector := some select
          metadata := r.metadata ++ input
          head := some head
          ingestor := some (bodyRun limits select head).ingestor }
        ((r.metadata ++ input).take head.consumedBytes) ((r.metadata ++ input).drop head.consumedBytes)
      rw [hcut] at hfed
      exact hfed

/-- However a request is fed and finished, it is what its ingestor makes of the bytes behind its head. -/
theorem runCalls_tracks (limits : HttpRequestParserLimits) (select : HttpRequestHead → RequestBodyStoragePolicy)
    (calls : List IngestCall) :
    Tracks limits select (fedBytes calls)
      (runCalls { limits := limits, storagePolicySelector := some select } calls) := by
  induction calls using List.reverseRecOn with
  | nil => exact ⟨rfl,rfl,fun _ => ⟨rfl,List.nil_suffix⟩,fun head hsome => nomatch hsome⟩
  | append_singleton calls call ih =>
    rw [runCalls_snoc,fedBytes_append,fedBytes_single]
    cases call with
    | feed env input => exact feed_tracks env ih input
    | finish env =>
      rw [IngestCall.input,List.append_nil]
      exact finish_tracks env ih

theorem request_view {view : HttpRequestView} (h : r.request = some view) :
    ∃ head body, r.head = some head ∧ view = head.view body := by
  unfold request at h
  split at h
  · rename_i head g hhead hg
    split at h
    · split at h
      · rename_i memory hmemory
        exact ⟨head,memory,hhead,(Option.some.inj h).symm⟩
      · exact ⟨head,_,hhead,(Option.some.inj h).symm⟩
    · cases h
  · cases h

/-- The body of a memory policy is held in memory, within the limit of the policy. -/
theorem Tracks.inMemory {head : HttpRequestHead} (h : Tracks limits select fed r) (hhead : r.head = some head)
    (hmode : (select head).mode = .memory) (hlimit : (select head).maxBodyBytes ≠ 0) :
    ∃ g, r.ingestor = some g ∧ InMemory (select head).maxBodyBytes 0 g := by
  obtain ⟨hchunked,before,calls,-,hg⟩ := h.body head hhead
  refine ⟨_,hg,?_⟩
  rw [bodyRun,hmode]
  refine after_inMemory hchunked ?_ calls
  rw [bodyLimits,if_pos hlimit]
  exact min_le_right _ _

/-- A request of a memory policy completes with the payload of a whole body, and with none beyond
the limit of the policy. -/
theorem Tracks.completed {head : HttpRequestHead} {view : HttpRequestView} (h : Tracks limits select fed r)
    (hhead : r.head = some head) (hmode : (select head).mode = .memory) (hlimit : (select head).maxBodyBytes ≠ 0)
    (hview : r.request = some view) :
    ∃ wire payload, r.metadata ++ wire <:+: fed ∧ IsBody head (bodyLimits limits (select head)) wire payload ∧
      payload.length ≤ (select head).maxBodyBytes ∧ view = head.view payload := by
  obtain ⟨g,hg,hmemory⟩ := h.inMemory hhead hmode hlimit
  obtain ⟨-,before,calls,hfed,hrun⟩ := h.body head hhead
  have hsame : g = ((bodyRun limits select head).after calls).ingestor := Option.some.inj (hg.symm.trans hrun)
  unfold request at hview
  rw [hhead,hg] at hview
  dsimp only at hview
  split at hview
  · rename_i hcomplete
    obtain ⟨wire,payload,⟨rest,hwire⟩,hbody,hoffers⟩ := complete_body (hsame ▸ hcomplete)
    have hheld : g.completedMemoryBody = some payload := by
      rw [← hsame,hmode] at hoffers
      exact hoffers.1
    rw [hheld] at hview
    refine ⟨wire,payload,⟨before,rest,?_⟩,hbody,?_,(Option.some.inj hview).symm⟩
    · rw [hfed,← hwire]
      simp only [List.append_assoc]
    · rw [RequestBodyIngestor.completedMemoryBody,if_pos ⟨hcomplete,hmemory.mode⟩] at hheld
      have hsize := hmemory.size
      have hdecoded := hmemory.decoder.decoded_le
      rw [hheld,Option.getD_some] at hsize
      omega
  · cases hview

theorem feedBody_head (r : BufferedRequest) (input : Bytes) : (r.feedBody env input).1.head = r.head := by
  unfold feedBody
  split
  · rfl
  · split <;> rfl

theorem feed_selector (r : BufferedRequest) (input : Bytes) :
    (r.feed env input).1.storagePolicySelector = r.storagePolicySelector := by
  have hbody (r : BufferedRequest) (input : Bytes) :
      (r.feedBody env input).1.storagePolicySelector = r.storagePolicySelector := by
    unfold feedBody
    split
    · rfl
    · split <;> rfl
  unfold feed
  split
  · exact hbody r input
  · dsimp only
    split
    · rfl
    · rfl
    · exact hbody _ _

/-- A declared length above the limit of the policy ends the call that completes the head. -/
theorem feed_declared {r' : BufferedRequest} {input : Bytes} {head : HttpRequestHead}
    (hselect : r.storagePolicySelector = some select) (hnone : r.head = none)
    (h : r.feed env input = (r',.ok ())) (hhead : r'.head = some head) (hlimit : (select head).maxBodyBytes ≠ 0) :
    head.contentLength ≤ (select head).maxBodyBytes := by
  unfold feed at h
  rw [hnone,hselect,if_neg (by decide)] at h
  dsimp only at h
  split at h
  · cases h
  · cases h
    cases hhead
  · rename_i head' hparse
    obtain ⟨hstate,hresult⟩ := Prod.mk.inj h
    rw [← hstate] at hhead
    dsimp only at hhead
    rw [feedBody_head] at hhead
    cases hhead
    by_contra hlonger
    have hplain : head.chunked = false := by
      cases hchunked : head.chunked with
      | false => rfl
      | true =>
        rw [head_framing hparse hchunked] at hlonger
        exact absurd (Nat.zero_le _) hlonger
    have hbody : (bodyLimits r.limits (select head)).maxBodyBytes < head.contentLength := by
      rw [bodyLimits,if_pos hlimit]
      exact (min_le_right _ _).trans_lt (Nat.not_le.mp hlonger)
    have hfailed := ingestor_declared env hplain hbody (select head).mode
      ((r.metadata ++ input).drop head.consumedBytes)
    obtain ⟨e,he⟩ := hfailed
    unfold feedBody at hresult
    dsimp only at hresult
    split at hresult
    · cases hresult
    · rename_i g p heq
      rw [heq] at he
      cases he

end Request
end BufferedRequest
end SpareNode.Http
