import SpareNode.Http.Request.BodyDecoderMachine
import SpareNode.Http.Request.Stability
import SpareNode.Http.Transport.BufferedRequest

/-! # The temporary file of a body

Whether a request has had a temporary file created for its body, in any fragments and with whatever
the storage answers. The first payload decides: the body decoder reads it in some fragment, before
it fails or is complete, and the storage then gives a file or refuses.
-/
namespace SpareNode.Http
open Storage Concurrency Transducer HttpBodyDecoder

def createdTemporaryFile (request : BufferedRequest) : Bool :=
  match request.ingestor with
  | none => false
  | some ingestor => decide ((.create,true) ∈ ingestor.history)

/-- The request after some fragments; nothing is fed to one that is complete or has failed. -/
def requestAfter (storage : StorageEnvironment) (request : BufferedRequest) : List Bytes → BufferedRequest
  | [] => request
  | fragment :: fragments =>
    if request.complete then request
    else
      match request.feed storage fragment with
      | (request,.error _) => request
      | (request,.ok ()) => requestAfter storage request fragments

/-- The bytes behind the head in each fragment, from the one on that completes the head. -/
def bodyFragments (limits : HttpRequestParserLimits) (metadata : Bytes) : List Bytes → List Bytes
  | [] => []
  | fragment :: fragments =>
    match parseHttpRequestHead (metadata ++ fragment) limits with
    | .ok (some head) => (metadata ++ fragment).drop head.consumedBytes :: fragments
    | _ => bodyFragments limits (metadata ++ fragment) fragments

/-- The fragment of a body in which the decoder first yields payload, if it does so before it fails or
is complete. -/
def firstPayload (d : HttpBodyDecoder) : List Bytes → Option ℕ
  | [] => none
  | fragment :: fragments =>
    match d.feed fragment bodyDecodeBufferBytes with
    | (_,.error _) => none
    | (d,.ok p) =>
      if p.output ≠ [] then some 0
      else if p.complete then none
      else (firstPayload d fragments).map (· + 1)

/-- From its answer number `tick` on the storage gives a file to the payload in fragment `n`: it is asked
once in each fragment whether to stop, once more before the payload is stored, and then for the file. -/
def GivesFile (storage : StorageEnvironment) (tick n : ℕ) : Prop :=
  (∀ i, tick ≤ i → i ≤ tick + n + 1 → storage.interruption i = .none) ∧ storage.create (tick + n + 2) = .ok ()

theorem givesFile_succ {storage : StorageEnvironment} {tick n : ℕ} : GivesFile storage tick (n + 1) ↔
    storage.interruption tick = .none ∧ GivesFile storage (tick + 1) n := by
  have hlast : tick + (n + 1) + 2 = tick + 1 + n + 2 := by omega
  unfold GivesFile
  rw [hlast,← and_assoc]
  refine and_congr_left fun _ => ⟨?_,?_⟩
  · intro h
    exact ⟨h tick le_rfl (by omega),fun i hi hn => h i (by omega) (by omega)⟩
  · rintro ⟨hfirst,hrest⟩ i hi hn
    rcases hi.eq_or_lt with rfl | hi
    · exact hfirst
    · exact hrest i hi (by omega)

theorem givesFile_zero {storage : StorageEnvironment} {tick : ℕ} : GivesFile storage tick 0 ↔
    storage.interruption tick = .none ∧ storage.interruption (tick + 1) = .none ∧
      storage.create (tick + 2) = .ok () := by
  unfold GivesFile
  rw [← and_assoc]
  refine and_congr_left fun _ => ⟨fun h => ⟨h tick le_rfl (by omega),h (tick + 1) (by omega) le_rfl⟩,?_⟩
  rintro ⟨hfirst,hsecond⟩ i hi hn
  rcases hi.eq_or_lt with rfl | hi
  · exact hfirst
  · obtain rfl : i = tick + 1 := by omega
    exact hsecond

namespace RequestBodyIngestor
variable {storage : StorageEnvironment} {g : RequestBodyIngestor} {tick : ℕ}

theorem persist_history (g : RequestBodyIngestor) (output : Bytes) :
    g.history <+: (g.persist storage output).1.history := by
  unfold persist
  split
  · exact List.prefix_rfl
  · split
    · split <;> exact List.prefix_rfl
    · unfold ensureArtifact
      split
      · rename_i hensure
        split at hensure
        · cases hensure
        · split at hensure
          · cases hensure
            exact List.prefix_append _ _
          · cases hensure
      · rename_i opened hensure
        have hopened : g.history <+: opened.history := by
          split at hensure
          · cases hensure
            exact List.prefix_rfl
          · split at hensure
            · cases hensure
            · cases hensure
              exact List.prefix_append _ _
        split <;> exact hopened.trans (List.prefix_append _ _)

theorem store_history (storage : StorageEnvironment) (g : RequestBodyIngestor) (output : Bytes) :
    g.history <+: (g.store storage output).1.history := by
  unfold store
  split
  · exact List.prefix_rfl
  · exact persist_history g output

theorem finalize_history (storage : StorageEnvironment) (g : RequestBodyIngestor) :
    g.history <+: (g.finalize storage).1.history := by
  unfold finalize
  split
  · exact List.prefix_rfl
  · split
    · exact List.prefix_rfl
    · split
      · exact List.prefix_append _ _
      · dsimp only
        split <;> exact List.prefix_append _ _

theorem feedLoop_history (g : RequestBodyIngestor) (pending : Bytes) (total : HttpBodyDecodeProgress) :
    g.history <+: (g.feedLoop storage pending total).1.history := by
  have hstored {g g' : RequestBodyIngestor} {d : HttpBodyDecoder} {output : Bytes}
      {r : Except RequestBodyIngestionError Unit}
      (h : ({ g with decoder := d } : RequestBodyIngestor).store storage output = (g',r)) :
      g.history <+: g'.history := by
    have hgrows := store_history storage { g with decoder := d } output
    rwa [h] at hgrows
  have hfinal {g g' : RequestBodyIngestor} {r : Except RequestBodyIngestionError Unit}
      (h : g.finalize storage = (g',r)) : g.history <+: g'.history := by
    have hgrows := finalize_history storage g
    rwa [h] at hgrows
  fun_induction feedLoop storage g pending total with
  | case1 => exact List.prefix_rfl
  | case2 _ _ _ _ _ _ _ _ hstore => exact hstored hstore
  | case3 _ _ _ _ _ _ _ hstore _ _ _ hfinalize => exact (hstored hstore).trans (hfinal hfinalize)
  | case4 _ _ _ _ _ _ _ _ hstore _ _ hfinalize => exact (hstored hstore).trans (hfinal hfinalize)
  | case5 _ _ _ _ _ _ _ _ hstore => exact hstored hstore
  | case6 _ _ _ _ _ _ _ _ hstore => exact hstored hstore
  | case7 _ _ _ _ _ _ _ _ hstore _ _ _ ih => exact (hstored hstore).trans ih

/-- What the first round has asked of the storage stays in the history. -/
theorem feedLoop_stored {pending : Bytes} {total p : HttpBodyDecodeProgress} {d : HttpBodyDecoder}
    (hdecode : g.decoder.feed pending bodyDecodeBufferBytes = (d,.ok p)) :
    (({ g with decoder := d } : RequestBodyIngestor).store storage p.output).1.history <+:
      (g.feedLoop storage pending total).1.history := by
  rw [feedLoop.eq_def,hdecode]
  dsimp only
  rcases ({ g with decoder := d } : RequestBodyIngestor).store storage p.output with ⟨stored,e | -⟩
  · exact List.prefix_rfl
  · dsimp only
    split
    · have hfinal := finalize_history storage stored
      rcases hfinalize : stored.finalize storage with ⟨closed,e | done⟩
      · rwa [hfinalize] at hfinal
      · rwa [hfinalize] at hfinal
    · split
      · exact List.prefix_rfl
      · split
        · exact List.prefix_rfl
        · exact feedLoop_history stored _ _

theorem feed_history (storage : StorageEnvironment) (g : RequestBodyIngestor) (input : Bytes) :
    g.history <+: (g.feed storage input).1.history := by
  unfold feed
  split
  · exact List.prefix_rfl
  · split
    · exact List.prefix_rfl
    · exact feedLoop_history g.next input _

/-- An ingestor that has stored nothing and failed nowhere, before answer number `tick` of the storage. -/
structure Untouched (g : RequestBodyIngestor) (tick : ℕ) : Prop where
  mode : g.storageMode = .temporaryFile
  failure : g.failure = none
  writer : g.writer = none
  history : g.history = []
  tick : g.tick = tick
  decoder : WellFormed g.decoder

theorem create_untouched (head : HttpRequestHead) (limits : HttpRequestParserLimits) :
    (create head limits .temporaryFile).Untouched 0 :=
  ⟨rfl,rfl,rfl,rfl,rfl,create_wellFormed head limits⟩

/-- A first payload creates the file, or it is lost with an error. -/
theorem Untouched.persist (storage : StorageEnvironment) (h : g.Untouched tick) (output : Bytes) :
    ((storage.interruption tick = .none ∧ storage.create (tick + 1) = .ok ()) ∧
      (.create,true) ∈ (g.persist storage output).1.history) ∨
    ¬(storage.interruption tick = .none ∧ storage.create (tick + 1) = .ok ()) ∧
      ∃ g' e, g.persist storage output = (g',.error e) ∧ (.create,true) ∉ g'.history := by
  unfold RequestBodyIngestor.persist ensureArtifact
  rw [h.tick]
  cases hstop : storage.interruption tick with
  | cancelled => exact .inr ⟨fun h => absurd h.1 (by decide),_,_,rfl,by simp [next,h.history]⟩
  | deadlineExceeded => exact .inr ⟨fun h => absurd h.1 (by decide),_,_,rfl,by simp [next,h.history]⟩
  | none =>
    simp only [interruptionError,h.mode,next,h.writer,h.tick,Option.isSome_none,Bool.false_eq_true,if_false]
    rw [if_neg (by decide)]
    cases hcreate : storage.create (tick + 1) with
    | error e => exact .inr ⟨fun h => absurd h.2 (by simp),_,_,rfl,by simp [called,h.history]⟩
    | ok created =>
      refine .inl ⟨⟨trivial,rfl⟩,?_⟩
      dsimp only
      split <;> simp [called,h.history,fail]

theorem Untouched.finalize (storage : StorageEnvironment) (h : g.Untouched tick) :
    ∃ g', g.finalize storage = (g',.ok ()) ∧ g'.Untouched tick ∧ g'.decoder = g.decoder ∧ g'.finalized = true := by
  unfold RequestBodyIngestor.finalize
  cases hfinalized : g.finalized with
  | true => exact ⟨g,rfl,h,rfl,hfinalized⟩
  | false =>
    simp only [h.writer]
    exact ⟨{ g with writer := none, finalized := true },rfl,⟨h.mode,h.failure,rfl,h.history,h.tick,h.decoder⟩,rfl,rfl⟩

/-- How an untouched ingestor takes a fragment whose feed is not interrupted at its start. -/
inductive FirstFeed (storage : StorageEnvironment) (tick : ℕ) (d : HttpBodyDecoder) (input : Bytes) :
    RequestBodyIngestor × Except RequestBodyIngestionError HttpBodyDecodeProgress → Prop
  | rejected {d' : HttpBodyDecoder} {e : HttpRequestParseError} {g : RequestBodyIngestor}
      {error : RequestBodyIngestionError} (decoded : d.feed input bodyDecodeBufferBytes = (d',.error e))
      (history : g.history = []) : FirstFeed storage tick d input (g,.error error)
  | quiet {p t : HttpBodyDecodeProgress} {g : RequestBodyIngestor}
      (decoded : d.feed input bodyDecodeBufferBytes = (g.decoder,.ok p)) (empty : p.output = [])
      (untouched : g.Untouched tick) (complete : g.complete = p.complete) : FirstFeed storage tick d input (g,.ok t)
  | stored {d' : HttpBodyDecoder} {p : HttpBodyDecodeProgress}
      {result : RequestBodyIngestor × Except RequestBodyIngestionError HttpBodyDecodeProgress}
      (decoded : d.feed input bodyDecodeBufferBytes = (d',.ok p)) (payload : p.output ≠ [])
      (gives : storage.interruption tick = .none ∧ storage.create (tick + 1) = .ok ())
      (created : (.create,true) ∈ result.1.history) : FirstFeed storage tick d input result
  | lost {d' : HttpBodyDecoder} {p : HttpBodyDecodeProgress} {g : RequestBodyIngestor}
      {error : RequestBodyIngestionError} (decoded : d.feed input bodyDecodeBufferBytes = (d',.ok p))
      (payload : p.output ≠ [])
      (refuses : ¬(storage.interruption tick = .none ∧ storage.create (tick + 1) = .ok ()))
      (uncreated : (.create,true) ∉ g.history) : FirstFeed storage tick d input (g,.error error)

theorem Untouched.feedLoop (h : g.Untouched tick) (input : Bytes) (total : HttpBodyDecodeProgress) :
    FirstFeed storage tick g.decoder input (g.feedLoop storage input total) := by
  rcases hdecode : g.decoder.feed input bodyDecodeBufferBytes with ⟨d,e | p⟩
  · rw [feedLoop.eq_def,hdecode]
    exact .rejected hdecode h.history
  obtain ⟨u,v,rfl,hc,hr,-,hfailure,hcomplete,hrest,-⟩ := feed_ok h.decoder hdecode
  have hread : ({ g with decoder := d } : RequestBodyIngestor).Untouched tick :=
    ⟨h.mode,h.failure,h.writer,h.history,h.tick,reads_wellFormed hr h.decoder⟩
  by_cases houtput : p.output = []
  · have hstore : ({ g with decoder := d } : RequestBodyIngestor).store storage p.output =
        ({ g with decoder := d },.ok ()) := by rw [store,if_pos houtput]
    cases hdone : d.complete with
    | true =>
      obtain ⟨g',hfinalize,huntouched,hdecoder,hfinalized⟩ := hread.finalize storage
      rw [feedLoop_completed hdecode hstore (hcomplete.trans hdone) hfinalize]
      refine .quiet ?_ houtput huntouched ?_
      · rw [hdecode,hdecoder]
      · rw [RequestBodyIngestor.complete,hfinalized,huntouched.failure,hdecoder,hcomplete,hdone]
        rfl
    | false =>
      -- A call that yields nothing stops at the end of its input.
      have hv : v = [] := by
        rcases hrest with hv | hphase | ⟨-,hroom⟩
        · exact hv
        · rw [complete_iff.mpr ⟨hphase,hfailure⟩] at hdone
          cases hdone
        · rw [houtput] at hroom
          exact absurd hroom (by decide)
      have hdrop : (u ++ v).drop p.consumed = [] := by rw [hc,List.drop_left,hv]
      rw [feedLoop_drained hdecode hstore (hcomplete.trans hdone) hdrop]
      refine .quiet hdecode houtput hread ?_
      rw [RequestBodyIngestor.complete,hcomplete,hdone]
      rfl
  · have hstore : ({ g with decoder := d } : RequestBodyIngestor).store storage p.output =
        ({ g with decoder := d } : RequestBodyIngestor).persist storage p.output := by
      rw [store,if_neg houtput]
    rcases hread.persist storage p.output with ⟨hgives,hmem⟩ | ⟨hrefuses,g',e,hresult,hmem⟩
    · rw [← hstore] at hmem
      exact .stored hdecode houtput hgives ((feedLoop_stored hdecode).subset hmem)
    · have hlost : g.feedLoop storage (u ++ v) total = (g',.error e) := by
        rw [feedLoop.eq_def,hdecode]
        simp only [hstore.trans hresult]
      rw [hlost]
      exact .lost hdecode houtput hrefuses hmem

theorem Untouched.feed (storage : StorageEnvironment) (h : g.Untouched tick) (input : Bytes) :
    (storage.interruption tick ≠ .none ∧ ∃ g' e, g.feed storage input = (g',.error e) ∧ g'.history = []) ∨
    storage.interruption tick = .none ∧ FirstFeed storage (tick + 1) g.decoder input (g.feed storage input) := by
  have hnext : g.next.Untouched (tick + 1) :=
    ⟨h.mode,h.failure,h.writer,h.history,congrArg (· + 1) h.tick,h.decoder⟩
  unfold RequestBodyIngestor.feed
  rw [h.failure,h.tick]
  cases hstop : storage.interruption tick with
  | none => exact .inr ⟨rfl,hnext.feedLoop input _⟩
  | cancelled | deadlineExceeded => exact .inl ⟨by decide,_,_,rfl,h.history⟩

end RequestBodyIngestor

section Requests
variable {storage : StorageEnvironment} {tick : ℕ} {request : BufferedRequest} {g : RequestBodyIngestor}

/-- How a request goes on after a feed, which is only if it succeeded. -/
def afterFeed (storage : StorageEnvironment) (fragments : List Bytes) :
    BufferedRequest × Except BufferedRequestError Unit → BufferedRequest
  | (request,.error _) => request
  | (request,.ok ()) => requestAfter storage request fragments

theorem requestAfter_cons (fragment : Bytes) (fragments : List Bytes) (hopen : request.complete = false) :
    requestAfter storage request (fragment :: fragments) =
      afterFeed storage fragments (request.feed storage fragment) := by
  rw [requestAfter,hopen,if_neg Bool.false_ne_true]
  rfl

theorem afterFeed_error {result : BufferedRequest × Except BufferedRequestError Unit} {fragments : List Bytes}
    (h : result.2.isOk = false) : afterFeed storage fragments result = result.1 := by
  obtain ⟨request,e | done⟩ := result
  · rfl
  · cases h

theorem afterFeed_ok {result : BufferedRequest × Except BufferedRequestError Unit} {fragments : List Bytes}
    (h : result.2.isOk = true) : afterFeed storage fragments result = requestAfter storage result.1 fragments := by
  obtain ⟨request,e | done⟩ := result
  · cases h
  · rfl

theorem requestAfter_complete (fragments : List Bytes) (h : request.complete = true) :
    requestAfter storage request fragments = request := by
  cases fragments with
  | nil => rfl
  | cons fragment fragments => rw [requestAfter,if_pos h]

theorem complete_ingestor (h : request.ingestor = some g) : request.complete = g.complete := by
  rw [BufferedRequest.complete,h]

theorem createdTemporaryFile_iff (h : request.ingestor = some g) :
    createdTemporaryFile request = true ↔ (.create,true) ∈ g.history := by
  rw [createdTemporaryFile,h,decide_eq_true_eq]

/-- A request whose ingestor has been fed some input. -/
structure Fed (storage : StorageEnvironment) (g : RequestBodyIngestor) (input : Bytes)
    (result : BufferedRequest × Except BufferedRequestError Unit) : Prop where
  head : result.1.head.isSome = true
  ingestor : result.1.ingestor = some (g.feed storage input).1
  verdict : result.2.isOk = (g.feed storage input).2.isOk

theorem feedBody_fed (hhead : request.head.isSome = true) (hingestor : request.ingestor = some g) (input : Bytes) :
    Fed storage g input (request.feedBody storage input) := by
  rw [BufferedRequest.feedBody,hingestor]
  dsimp only
  rcases hfeed : g.feed storage input with ⟨fed,e | p⟩
  · exact ⟨hhead,by rw [hfeed],by rw [hfeed]; rfl⟩
  · exact ⟨hhead,by rw [hfeed],by rw [hfeed]; rfl⟩

theorem feed_fed (hhead : request.head.isSome = true) (hingestor : request.ingestor = some g) (input : Bytes) :
    Fed storage g input (request.feed storage input) := by
  rw [BufferedRequest.feed,if_pos hhead]
  exact feedBody_fed hhead hingestor input

theorem requestAfter_keeps (fragments : List Bytes) (hhead : request.head.isSome = true)
    (hingestor : request.ingestor = some g) (hcreated : (.create,true) ∈ g.history) :
    createdTemporaryFile (requestAfter storage request fragments) = true := by
  induction fragments generalizing request g with
  | nil => exact (createdTemporaryFile_iff hingestor).mpr hcreated
  | cons fragment fragments ih =>
    cases hopen : request.complete with
    | true =>
      rw [requestAfter_complete _ hopen]
      exact (createdTemporaryFile_iff hingestor).mpr hcreated
    | false =>
      rw [requestAfter_cons fragment fragments hopen]
      have hfed := @feed_fed storage request g hhead hingestor fragment
      have hkept := (g.feed_history storage fragment).subset hcreated
      cases hok : (request.feed storage fragment).2.isOk with
      | false =>
        rw [afterFeed_error hok]
        exact (createdTemporaryFile_iff hfed.ingestor).mpr hkept
      | true =>
        rw [afterFeed_ok hok]
        exact ih hfed.head hfed.ingestor hkept

/-- One feed of an untouched ingestor, by what holds after a quiet one. -/
theorem fed_created {fragments : List Bytes} {input : Bytes}
    {result : BufferedRequest × Except BufferedRequestError Unit} (h : g.Untouched tick)
    (hfed : Fed storage g input result)
    (hrest : ∀ {request : BufferedRequest} {g : RequestBodyIngestor}, g.Untouched (tick + 1) → g.complete = false →
      request.head.isSome = true → request.ingestor = some g →
      (createdTemporaryFile (requestAfter storage request fragments) = true ↔
        ∃ n, firstPayload g.decoder fragments = some n ∧ GivesFile storage (tick + 1) n)) :
    createdTemporaryFile (afterFeed storage fragments result) = true ↔
      ∃ n, firstPayload g.decoder (input :: fragments) = some n ∧ GivesFile storage tick n := by
  have hcreated := createdTemporaryFile_iff hfed.ingestor
  have hverdict := hfed.verdict
  rcases h.feed storage input with ⟨hstop,g',e,hresult,hhistory⟩ | ⟨hgo,hfirst⟩
  · rw [hresult] at hcreated hverdict
    rw [afterFeed_error hverdict,hcreated,hhistory]
    refine ⟨fun hmem => absurd hmem List.not_mem_nil,?_⟩
    rintro ⟨n,-,hgives⟩
    exact absurd (hgives.1 tick le_rfl (by omega)) hstop
  · have hingestor := hfed.ingestor
    generalize g.feed storage input = fed at hfirst hingestor hcreated hverdict
    cases hfirst with
    | rejected decoded history =>
      rw [afterFeed_error hverdict,hcreated,history]
      simp [firstPayload,decoded]
    | quiet decoded empty untouched complete =>
      rw [afterFeed_ok hverdict]
      cases hdone : result.1.complete with
      | true =>
        have hp := complete.symm.trans ((complete_ingestor hingestor).symm.trans hdone)
        rw [requestAfter_complete fragments hdone,hcreated,untouched.history]
        simp [firstPayload,decoded,empty,hp]
      | false =>
        have hopen := (complete_ingestor hingestor).symm.trans hdone
        rw [hrest untouched hopen hfed.head hingestor]
        simp only [firstPayload,decoded,empty,← complete,hopen]
        constructor
        · rintro ⟨n,hn,hgives⟩
          exact ⟨n + 1,by simp [hn],givesFile_succ.mpr ⟨hgo,hgives⟩⟩
        · rintro ⟨n,hn,hgives⟩
          simp only [ne_eq,not_true_eq_false,Bool.false_eq_true,if_false,Option.map_eq_some_iff] at hn
          obtain ⟨m,hm,rfl⟩ := hn
          exact ⟨m,hm,(givesFile_succ.mp hgives).2⟩
    | stored decoded payload gives created =>
      refine iff_of_true ?_ ⟨0,by simp [firstPayload,decoded,payload],givesFile_zero.mpr ⟨hgo,gives⟩⟩
      cases hok : result.2.isOk with
      | false =>
        rw [afterFeed_error hok]
        exact hcreated.mpr created
      | true =>
        rw [afterFeed_ok hok]
        exact requestAfter_keeps fragments hfed.head hingestor created
    | lost decoded payload refuses uncreated =>
      rw [afterFeed_error hverdict,hcreated]
      refine iff_of_false uncreated ?_
      rintro ⟨n,hn,hgives⟩
      obtain rfl : n = 0 := by simpa [firstPayload,decoded,payload] using hn.symm
      exact refuses (givesFile_zero.mp hgives).2

/-- An untouched ingestor comes to a file through the first payload of its decoder. -/
theorem requestAfter_untouched (fragments : List Bytes) (h : g.Untouched tick) (hopen : g.complete = false)
    (hhead : request.head.isSome = true) (hingestor : request.ingestor = some g) :
    createdTemporaryFile (requestAfter storage request fragments) = true ↔
      ∃ n, firstPayload g.decoder fragments = some n ∧ GivesFile storage tick n := by
  induction fragments generalizing request g tick with
  | nil =>
    rw [requestAfter,createdTemporaryFile_iff hingestor,h.history]
    simp [firstPayload]
  | cons fragment fragments ih =>
    rw [requestAfter_cons fragment fragments ((complete_ingestor hingestor).trans hopen)]
    exact fed_created h (feed_fed hhead hingestor fragment) ih

/-- A request has had a temporary file created exactly if its storage gives one to the first payload that
its body decodes to. -/
theorem requestAfter_created {limits : HttpRequestParserLimits} {head : HttpRequestHead}
    {select : HttpRequestHead → RequestBodyStoragePolicy} (metadata : Bytes) (fragments : List Bytes)
    (hhead : parseHttpRequestHead (metadata ++ fragments.flatten) limits = .ok (some head))
    (hselect : select head = {}) :
    createdTemporaryFile (requestAfter storage
        { limits := limits, storagePolicySelector := some select, metadata := metadata } fragments) = true ↔
      ∃ n, firstPayload (create head limits) (bodyFragments limits metadata fragments) = some n ∧
        GivesFile storage 0 n := by
  induction fragments generalizing metadata with
  | nil => simp [requestAfter,createdTemporaryFile,bodyFragments,firstPayload]
  | cons fragment fragments ih =>
    rw [List.flatten_cons,← List.append_assoc] at hhead
    have hstable (h : parseHttpRequestHead (metadata ++ fragment) limits ≠ .ok none) :
        parseHttpRequestHead (metadata ++ fragment) limits = .ok (some head) :=
      (parseHttpRequestHead_stable limits _ _ h).symm.trans hhead
    rw [requestAfter_cons fragment fragments rfl]
    simp only [BufferedRequest.feed,bodyFragments]
    rcases hparse : parseHttpRequestHead (metadata ++ fragment) limits with e | _ | head'
    · cases hparse.symm.trans (hstable (by simp [hparse]))
    · exact ih (metadata ++ fragment) hhead
    · cases hparse.symm.trans (hstable (by simp [hparse]))
      have hlimits : BufferedRequest.bodyLimits limits (select head) = limits := by
        rw [hselect]
        rfl
      have hmode : (select head).mode = .temporaryFile := by rw [hselect]
      simp only [hlimits,hmode]
      have hfed := @feedBody_fed storage
        ⟨limits,some select,metadata ++ fragment,some head,
          some (RequestBodyIngestor.create head limits .temporaryFile)⟩
        (RequestBodyIngestor.create head limits .temporaryFile) rfl rfl
        ((metadata ++ fragment).drop head.consumedBytes)
      exact fed_created (RequestBodyIngestor.create_untouched head limits) ⟨hfed.head,hfed.ingestor,hfed.verdict⟩
        (requestAfter_untouched fragments)

/-- Chunks that go wrong in the fragment of the first payload bring no file. -/
example : firstPayload (create ⟨.put,ascii "/files/a",[],0,0,true⟩ {}) [ascii "3\r\nabc\r\nZZ\r\n"] = none := by
  decide +kernel

end Requests
end SpareNode.Http
