import SpareNode.Http.Transport.HandlerRuns

/-! # One request, one response

Every run of the handler, however it is fed and answered, calls the application at most once
and sends at most one interim and one final response.
-/
namespace SpareNode.Http
open Concurrency Network Storage

def Effect.isCall : Effect → Bool
  | .called _ _ _ => true
  | _ => false

def Effect.isInterim : Effect → Bool
  | .interim _ => true
  | _ => false

def Effect.isFinal : Effect → Bool
  | .final _ _ => true
  | _ => false

/-- A failure that keeps a request from the application. -/
def Effect.refuses : Effect → Bool
  | .unsupportedExpectation | .receiveFailed _ | .requestFailed _ | .transportRejected _ => true
  | _ => false

/-- A timeout, a cancellation or another failure to receive or store the request. -/
def Effect.interrupts : Effect → Bool
  | .receiveFailed _ => true
  | .requestFailed error => error.interrupted
  | _ => false

structure OneResponse (config : HttpConnectionHandlerConfig) (peer : TcpEndpoint) (run : ConnectionRun) :
    Prop where
  calls : run.log.countP Effect.isCall ≤ 1
  interims : run.log.countP Effect.isInterim ≤ 1
  finals : run.log.countP Effect.isFinal ≤ 1
  dispatched : ∀ request view transport, .called request view transport ∈ run.log →
    request.complete = true ∧ request.request = some view ∧ Supported view.fields ∧
    httpTransportAllowsPeer config.transportPolicy peer = true ∧
    resolveHttpTransport config.transportPolicy peer view.fields = .ok transport
  sent : ∃ interim final, run.wire.sent <+: interim ++ final ∧
    (interim = [] ∨ interim = interimResponse ∧ ∃ request, .interim request ∈ run.log ∧
      request.complete = false ∧ Asks request) ∧
    (final = [] ∨ ∃ response requestMethod, .final response requestMethod ∈ run.log ∧
      200 ≤ response.statusCode.value ∧ final = responseBytes response requestMethod)
  refused : (∃ effect ∈ run.log, effect.refuses = true) → ∀ effect ∈ run.log, effect.isCall = false
  interrupted : (∃ effect ∈ run.log, effect.interrupts = true) → ∀ effect ∈ run.log, effect.isFinal = false

variable {config : HttpConnectionHandlerConfig} {peer : TcpEndpoint} {run before : ConnectionRun}

theorem Dispatched.complete_eq {request : BufferedRequest} {view : HttpRequestView}
    {transport : HttpRequestTransportContext} (h : Dispatched config peer request view transport) :
    request.complete = true := by
  have hview := h.complete
  unfold BufferedRequest.request at hview
  split at hview
  · rename_i head g hhead hg
    split at hview
    · rename_i hcomplete
      simp [BufferedRequest.complete,hg,hcomplete]
    · cases hview
  · cases hview

/-- What the effects of a last round are. -/
structure VerdictLog (config : HttpConnectionHandlerConfig) (peer : TcpEndpoint) (effects : List Effect)
    (answers : Bool) : Prop where
  single : effects.length ≤ 1
  interims : ∀ effect ∈ effects, effect.isInterim = false
  finals : ∀ effect ∈ effects, effect.isFinal = false
  dispatched : ∀ request view transport, .called request view transport ∈ effects →
    Dispatched config peer request view transport
  interrupted : (∃ effect ∈ effects, effect.interrupts = true) → answers = false

theorem Verdict.log {effects : List Effect} {answers : Bool} (h : Verdict config peer effects answers) :
    VerdictLog config peer effects answers := by
  cases h with
  | closed => exact ⟨by simp,by simp,by simp,by simp,by simp⟩
  | unsupported => exact ⟨by simp,by simp [Effect.isInterim],by simp [Effect.isFinal],by simp,by simp [Effect.interrupts]⟩
  | receiveFailed e => exact ⟨by simp,by simp [Effect.isInterim],by simp [Effect.isFinal],by simp,fun _ => rfl⟩
  | requestFailed e =>
    exact ⟨by simp,by simp [Effect.isInterim],by simp [Effect.isFinal],by simp,by simp [Effect.interrupts]⟩
  | transportRejected code =>
    exact ⟨by simp,by simp [Effect.isInterim],by simp [Effect.isFinal],by simp,by simp [Effect.interrupts]⟩
  | called request view transport dispatched =>
    refine ⟨by simp,by simp [Effect.isInterim],by simp [Effect.isFinal],?_,by simp [Effect.interrupts]⟩
    intro request' view' transport' hmem
    cases List.mem_singleton.mp hmem
    exact dispatched

structure BegunLog (log : List Effect) (sent : Bytes) : Prop where
  single : log.length ≤ 1
  interims : ∀ effect ∈ log, effect.isInterim = true
  whole : sent = [] ∨ sent = interimResponse ∧ ∃ request, .interim request ∈ log ∧
    request.complete = false ∧ Asks request

theorem Begun.begunLog {log : List Effect} {sent : Bytes} (h : Begun log sent) : BegunLog log sent := by
  cases h with
  | silent => exact ⟨by simp,by simp,Or.inl rfl⟩
  | continued request asks incomplete =>
    exact ⟨by simp,by simp [Effect.isInterim],Or.inr ⟨rfl,request,by simp,incomplete,asks⟩⟩

/-- At most one effect each of the beginning, of the verdict and of the response. -/
structure Assembled (config : HttpConnectionHandlerConfig) (peer : TcpEndpoint) (run : ConnectionRun)
    (begun effects finals : List Effect) (answers : Bool) : Prop where
  log : run.log = begun ++ effects ++ finals
  begunSingle : begun.length ≤ 1
  begunInterims : ∀ effect ∈ begun, effect.isInterim = true
  verdict : VerdictLog config peer effects answers
  finalsSingle : finals.length ≤ 1
  finalsFinal : ∀ effect ∈ finals, effect.isFinal = true
  answered : answers = false → finals = []

theorem isInterim_only {effect : Effect} (h : effect.isInterim = true) :
    effect.isCall = false ∧ effect.isFinal = false ∧ effect.refuses = false ∧ effect.interrupts = false := by
  cases effect <;> simp_all [Effect.isInterim,Effect.isCall,Effect.isFinal,Effect.refuses,Effect.interrupts]

theorem isFinal_only {effect : Effect} (h : effect.isFinal = true) :
    effect.isCall = false ∧ effect.isInterim = false ∧ effect.refuses = false ∧ effect.interrupts = false := by
  cases effect <;> simp_all [Effect.isInterim,Effect.isCall,Effect.isFinal,Effect.refuses,Effect.interrupts]

theorem refuses_not_call {effect : Effect} (h : effect.refuses = true) : effect.isCall = false := by
  cases effect <;> simp_all [Effect.isCall,Effect.refuses]

theorem Assembled.mem {begun effects finals : List Effect} {answers : Bool} {effect : Effect}
    (h : Assembled config peer run begun effects finals answers) (hmem : effect ∈ run.log) :
    effect.isInterim = true ∨ effect ∈ effects ∨ effect ∈ finals ∧ effect.isFinal = true := by
  rw [h.log] at hmem
  rcases List.mem_append.mp hmem with hmem | hmem
  · rcases List.mem_append.mp hmem with hmem | hmem
    · exact Or.inl (h.begunInterims effect hmem)
    · exact Or.inr (Or.inl hmem)
  · exact Or.inr (Or.inr ⟨hmem,h.finalsFinal effect hmem⟩)

theorem Assembled.counts {begun effects finals : List Effect} {answers : Bool}
    (h : Assembled config peer run begun effects finals answers) :
    run.log.countP Effect.isCall ≤ 1 ∧ run.log.countP Effect.isInterim ≤ 1 ∧
      run.log.countP Effect.isFinal ≤ 1 := by
  have hbegun := @List.countP_le_length _ Effect.isInterim begun
  have heffects := @List.countP_le_length _ Effect.isCall effects
  have hfinals := @List.countP_le_length _ Effect.isFinal finals
  have h1 := h.begunSingle
  have h2 := h.verdict.single
  have h3 := h.finalsSingle
  have hzero {p : Effect → Bool} {l : List Effect} (hl : ∀ effect ∈ l, p effect = false) : l.countP p = 0 :=
    List.countP_eq_zero.mpr (fun effect hmem => by simp [hl effect hmem])
  have hcall1 : begun.countP Effect.isCall = 0 :=
    hzero (fun effect hmem => (isInterim_only (h.begunInterims effect hmem)).1)
  have hcall3 : finals.countP Effect.isCall = 0 :=
    hzero (fun effect hmem => (isFinal_only (h.finalsFinal effect hmem)).1)
  have hinterim2 : effects.countP Effect.isInterim = 0 := hzero h.verdict.interims
  have hinterim3 : finals.countP Effect.isInterim = 0 :=
    hzero (fun effect hmem => (isFinal_only (h.finalsFinal effect hmem)).2.1)
  have hfinal1 : begun.countP Effect.isFinal = 0 :=
    hzero (fun effect hmem => (isInterim_only (h.begunInterims effect hmem)).2.1)
  have hfinal2 : effects.countP Effect.isFinal = 0 := hzero h.verdict.finals
  rw [h.log]
  simp only [List.countP_append]
  omega

/-- Of a single verdict, a failure leaves no room for a call. -/
theorem Assembled.refused {begun effects finals : List Effect} {answers : Bool}
    (h : Assembled config peer run begun effects finals answers)
    (hrefused : ∃ effect ∈ run.log, effect.refuses = true) :
    ∀ effect ∈ run.log, effect.isCall = false := by
  obtain ⟨failure,hmem,hfailure⟩ := hrefused
  have hin : failure ∈ effects := by
    rcases h.mem hmem with hinterim | hin | ⟨-,hfinal⟩
    · simp [(isInterim_only hinterim).2.2.1] at hfailure
    · exact hin
    · simp [(isFinal_only hfinal).2.2.1] at hfailure
  intro effect heffect
  rcases h.mem heffect with hinterim | hin' | ⟨-,hfinal⟩
  · exact (isInterim_only hinterim).1
  · have hsame : effect = failure := by
      obtain ⟨x,hx⟩ := List.length_eq_one_iff.mp
        (Nat.le_antisymm h.verdict.single (List.length_pos_of_mem hin))
      rw [hx] at hin hin'
      rw [List.mem_singleton.mp hin,List.mem_singleton.mp hin']
    rw [hsame]
    exact refuses_not_call hfailure
  · exact (isFinal_only hfinal).1

theorem Assembled.interrupted {begun effects finals : List Effect} {answers : Bool}
    (h : Assembled config peer run begun effects finals answers)
    (hinterrupted : ∃ effect ∈ run.log, effect.interrupts = true) :
    ∀ effect ∈ run.log, effect.isFinal = false := by
  obtain ⟨failure,hmem,hfailure⟩ := hinterrupted
  have hin : failure ∈ effects := by
    rcases h.mem hmem with hinterim | hin | ⟨-,hfinal⟩
    · simp [(isInterim_only hinterim).2.2.2] at hfailure
    · exact hin
    · simp [(isFinal_only hfinal).2.2.2] at hfailure
  have hnone := h.answered (h.verdict.interrupted ⟨failure,hin,hfailure⟩)
  intro effect heffect
  rcases h.mem heffect with hinterim | hin' | ⟨hin',-⟩
  · exact (isInterim_only hinterim).2.1
  · exact h.verdict.finals effect hin'
  · rw [hnone] at hin'
    cases hin'

theorem Assembled.dispatched {begun effects finals : List Effect} {answers : Bool}
    (h : Assembled config peer run begun effects finals answers) {request : BufferedRequest}
    {view : HttpRequestView} {transport : HttpRequestTransportContext}
    (hmem : .called request view transport ∈ run.log) :
    Dispatched config peer request view transport := by
  rcases h.mem hmem with hinterim | hin | ⟨-,hfinal⟩
  · cases hinterim
  · exact h.verdict.dispatched request view transport hin
  · cases hfinal

/-- The bytes of a run, as the claims about them need them. -/
def SentInOrder (run : ConnectionRun) : Prop :=
  ∃ interim final, run.wire.sent <+: interim ++ final ∧
    (interim = [] ∨ interim = interimResponse ∧ ∃ request, .interim request ∈ run.log ∧
      request.complete = false ∧ Asks request) ∧
    (final = [] ∨ ∃ response requestMethod, .final response requestMethod ∈ run.log ∧
      200 ≤ response.statusCode.value ∧ final = responseBytes response requestMethod)

theorem Assembled.oneResponse {begun effects finals : List Effect} {answers : Bool}
    (h : Assembled config peer run begun effects finals answers) (hsent : SentInOrder run) :
    OneResponse config peer run := by
  obtain ⟨hcalls,hinterims,hfinals⟩ := h.counts
  refine ⟨hcalls,hinterims,hfinals,?_,hsent,h.refused,h.interrupted⟩
  intro request view transport hmem
  have hdispatched := h.dispatched hmem
  exact ⟨hdispatched.complete_eq,hdispatched.complete,hdispatched.supported,
    resolveHttpTransport_allowed hdispatched.resolved,hdispatched.resolved⟩

theorem Begun.oneResponse (h : Begun run.log run.wire.sent) : OneResponse config peer run := by
  have hlog := h.begunLog
  have hassembled : Assembled config peer run run.log [] [] true :=
    ⟨by simp,hlog.single,hlog.interims,Verdict.closed.log,by simp,by simp,by simp⟩
  exact hassembled.oneResponse ⟨run.wire.sent,[],by simp,hlog.whole,Or.inl rfl⟩

theorem Ending.oneResponse (hbegun : Begun before.log before.wire.sent)
    (h : Ending config peer before run) : OneResponse config peer run := by
  have hlog := hbegun.begunLog
  cases h with
  | silent effects answers verdict log sent =>
    have hassembled : Assembled config peer run before.log effects [] answers :=
      ⟨by rw [log,List.append_nil],hlog.single,hlog.interims,verdict.log,by simp,by simp,by simp⟩
    refine hassembled.oneResponse ⟨before.wire.sent,[],by rw [sent,List.append_nil],?_,Or.inl rfl⟩
    rcases hlog.whole with hnil | ⟨hwhole,request,hmem,hrest⟩
    · exact Or.inl hnil
    · exact Or.inr ⟨hwhole,request,by rw [log]; exact List.mem_append_left _ hmem,hrest⟩
  | responded effects verdict response requestMethod part final beginning log sent =>
    have hassembled : Assembled config peer run before.log effects [.final response requestMethod] true :=
      ⟨log,hlog.single,hlog.interims,verdict.log,by simp,by simp [Effect.isFinal],by simp⟩
    refine hassembled.oneResponse ⟨before.wire.sent,responseBytes response requestMethod,?_,?_,
      Or.inr ⟨response,requestMethod,by simp [log],final,rfl⟩⟩
    · rw [sent]
      exact (List.prefix_append_right_inj before.wire.sent).mpr beginning
    · rcases hlog.whole with hnil | ⟨hwhole,request,hmem,hrest⟩
      · exact Or.inl hnil
      · refine Or.inr ⟨hwhole,request,?_,hrest⟩
        rw [log,List.append_assoc]
        exact List.mem_append_left _ hmem

/-- In every run, whatever the peer, the storage and the application do: one request at most
reaches the application, and one response at most goes out. -/
theorem handler_one_response (world : ConnectionWorld) (config : HttpConnectionHandlerConfig)
    (application : HttpApplication) (connection : TcpConnection) (deadlines : RequestDeadlines)
    (rounds : ℕ) :
    OneResponse config connection.peerEndpoint
      (runHttpConnection world config application rounds
        (ConnectionRun.start config connection deadlines)).1 := by
  rcases runHttpConnection_cases world config application rounds
    (receiving_start config connection deadlines) with hreceiving | hfinished
  · exact hreceiving.begun.oneResponse
  · cases hfinished with
    | ended before begun ending => exact ending.oneResponse begun
    | continuing request asks incomplete log sent =>
      have hassembled := @Assembled.mk config connection.peerEndpoint _ [.interim request] [] [] true
        (by rw [log]; rfl) (by simp) (by simp [Effect.isInterim]) Verdict.closed.log (by simp) (by simp)
        (by simp)
      exact hassembled.oneResponse ⟨interimResponse,[],by simpa using sent,
        Or.inr ⟨rfl,request,by simp [log],incomplete,asks⟩,Or.inl rfl⟩

end SpareNode.Http
