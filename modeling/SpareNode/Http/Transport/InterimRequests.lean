import SpareNode.Http.Transport.HandlerContract

/-! # Requests that are told to continue

A property of the request that every call of `feed` without an error keeps holds of each request
that gets an interim response: nothing else changes the request before the handler goes round.
-/
namespace SpareNode.Http
open Concurrency Network Storage

def Interims (P : BufferedRequest → Prop) (run : ConnectionRun) : Prop :=
  ∀ request, .interim request ∈ run.log → P request

section Rule
variable {P : BufferedRequest → Prop} {world : ConnectionWorld} {config : HttpConnectionHandlerConfig}
  {run before after run' : ConnectionRun} {peer : TcpEndpoint}

theorem Interims.append {effects : List Effect} (h : Interims P before) (hlog : after.log = before.log ++ effects)
    (heffects : ∀ effect ∈ effects, effect.isInterim = false) : Interims P after := by
  intro request hmem
  rw [hlog] at hmem
  rcases List.mem_append.mp hmem with hold | hnew
  · exact h request hold
  · exact absurd (heffects _ hnew) (by simp [Effect.isInterim])

theorem Interims.record {effect : Effect} (h : Interims P run) (heffect : effect.isInterim = false) :
    Interims P (run.record effect) :=
  h.append rfl (by simpa using heffect)

theorem Answered.interims (h : Answered before after) (hbefore : Interims P before) : Interims P after := by
  cases h with
  | silent quiet =>
    have hlog : after.log = before.log ++ [] := by rw [quiet.log,List.append_nil]
    exact hbefore.append hlog (by simp)
  | responded response requestMethod part final beginning log sent =>
    exact hbefore.append log (by simp [Effect.isInterim])

theorem Ending.interims (h : Ending config peer before after) (hbefore : Interims P before) : Interims P after := by
  cases h with
  | silent effects answers verdict log sent => exact hbefore.append log verdict.log.interims
  | responded effects verdict response requestMethod part final beginning log sent =>
    rw [List.append_assoc] at log
    apply hbefore.append log
    intro effect heffect
    rcases List.mem_append.mp heffect with hverdict | hfinal
    · exact verdict.log.interims effect hverdict
    · rw [List.mem_singleton.mp hfinal]
      rfl

theorem dispatchAndRespond_interims (application : HttpApplication) (view : HttpRequestView)
    (transport : HttpRequestTransportContext) (h : Interims P run) :
    Interims P (dispatchAndRespond world config application run view transport).1 := by
  have hcalled : Interims P (run.record (.called run.request view transport)) := h.record rfl
  have hfailed := (sendErrorResponse_answered world config (run.record (.called run.request view transport))
    .internalServerError (by decide)).interims hcalled
  unfold dispatchAndRespond
  dsimp only
  split
  · exact hcalled
  · exact hfailed
  · split
    · exact hfailed
    · rename_i hstatus
      exact (sendFinalResponse_answered world config _ _ _ (Nat.not_lt.mp hstatus)).interims hcalled

theorem answerRequest_interims (application : HttpApplication) (view : HttpRequestView) (h : Interims P run) :
    Interims P (answerRequest world config application run view).1 := by
  unfold answerRequest
  split
  · rename_i code hcode
    exact (sendErrorResponse_answered world config _ _ (transportErrorStatus_final code)).interims (h.record rfl)
  · exact dispatchAndRespond_interims application view _ h

variable (world config)

/-- The one effect that records a request records the one at hand. -/
theorem respondToExpectation_interims (run : ConnectionRun) (expectation : RequestExpectation)
    (hrequest : P run.request) (h : Interims P run) :
    Interims P (respondToExpectation world config run expectation).1 ∧
    ((respondToExpectation world config run expectation).2 = .ok true →
      (respondToExpectation world config run expectation).1.request = run.request) := by
  have hrecorded : Interims P (run.record (.interim run.request)) := by
    intro request hmem
    rcases List.mem_append.mp hmem with hold | hnew
    · exact h request hold
    · cases List.mem_singleton.mp hnew
      exact hrequest
  cases expectation with
  | none => exact ⟨h,fun _ => rfl⟩
  | unsupported =>
    rcases respondToExpectation_unsupported run.connection.peerEndpoint world config run with
      ⟨run',e,heq,hending⟩ | ⟨run',heq,hending⟩
    · rw [heq]
      exact ⟨hending.interims h,nofun⟩
    · rw [heq]
      exact ⟨hending.interims h,nofun⟩
  | continueRequest =>
    unfold respondToExpectation
    dsimp only
    split
    · exact ⟨hrecorded,fun _ => rfl⟩
    · exact ⟨hrecorded,nofun⟩

/-- A round that does not end the run has fed the request. -/
theorem receiveMore_feeds {world : ConnectionWorld} {config : HttpConnectionHandlerConfig}
    (h : receiveMore world config run = (run',none)) :
    ∃ env bytes, run.request.feed env bytes = (run'.request,.ok ()) := by
  unfold receiveMore at h
  dsimp only at h
  split at h
  · cases h
  · rename_i received bytes hreceive
    have hreceived := receiveWithOptions_received hreceive
    split at h
    · cases h
    · unfold feedReceived at h
      split at h
      · cases h
      · rename_i request hfeed
        cases h
        have hsame : (recordReceive world received).request = run.request := hreceived.request
        rw [hsame] at hfeed
        exact ⟨_,bytes,hfeed⟩

variable (hfeed : ∀ request env bytes request', P request → request.feed env bytes = (request',.ok ()) → P request')
include hfeed

theorem roundHttpConnection_interims (application : HttpApplication) (hrequest : P run.request)
    (h : Interims P run) :
    Interims P (roundHttpConnection world config application run).1 ∧
    ((roundHttpConnection world config application run).2 = none →
      P (roundHttpConnection world config application run).1.request) := by
  have hresponded := respondToExpectation_interims world config
    { run with expectationChecked := (takeExpectation run.request run.expectationChecked).2 }
    (takeExpectation run.request run.expectationChecked).1 hrequest h
  unfold roundHttpConnection
  dsimp only
  split
  · rename_i run1 e heq
    rw [heq] at hresponded
    exact ⟨hresponded.1,nofun⟩
  · rename_i run1 heq
    rw [heq] at hresponded
    exact ⟨hresponded.1,nofun⟩
  · rename_i run1 heq
    rw [heq] at hresponded
    have hkept : run1.request = run.request := hresponded.2 rfl
    split
    · exact ⟨answerRequest_interims application _ hresponded.1,nofun⟩
    · rcases receiveMore_cases run1.connection.peerEndpoint world config run1 with
        ⟨run2,hreceive,hnext⟩ | ⟨run2,result,hreceive,hending⟩
      · obtain ⟨env,bytes,hfed⟩ := receiveMore_feeds hreceive
        rw [hreceive]
        refine ⟨?_,fun _ => hfeed _ env bytes _ (hkept ▸ hrequest) hfed⟩
        intro request hmem
        dsimp only at hmem
        rw [hnext.quiet.log] at hmem
        exact hresponded.1 request hmem
      · rw [hreceive]
        exact ⟨hending.interims hresponded.1,nofun⟩

theorem runHttpConnection_interims (application : HttpApplication) (rounds : ℕ) (hrequest : P run.request)
    (h : Interims P run) : Interims P (runHttpConnection world config application rounds run).1 := by
  induction rounds generalizing run with
  | zero => exact h
  | succ rounds ih =>
    have hround := roundHttpConnection_interims world config hfeed application hrequest h
    rw [runHttpConnection]
    split
    · rename_i run1 result heq
      rw [heq] at hround
      exact hround.1
    · rename_i run1 heq
      rw [heq] at hround
      exact ih (hround.2 rfl) hround.1

/-- What holds of a request before its first byte, and is kept, holds of every request that is
told to continue. -/
theorem handleHttpConnection_interims (application : Option HttpApplication) (connection : TcpConnection) (rounds : ℕ)
    (hstart : P { limits := config.parserLimits, storagePolicySelector := config.bodyStoragePolicySelector }) :
    Interims P (handleHttpConnection world config application connection rounds).1 := by
  have hnone (deadlines : RequestDeadlines) : Interims P (ConnectionRun.start config connection deadlines) :=
    fun request hmem => nomatch hmem
  unfold handleHttpConnection
  split
  · dsimp only
    split
    · exact hnone _
    · split
      · exact hnone _
      · exact runHttpConnection_interims world config hfeed _ rounds hstart (hnone _)
  · exact hnone _

end Rule
end SpareNode.Http
