import SpareNode.Network.CancellableWait

/-! # No stop is slept through

Whatever the order of the steps, a wait whose stop has been requested finds a datagram on its way or in the reader's
socket whenever it sleeps: the flag is set before the datagram is sent, and the wait drains the channel before it
looks at the flag. The callback never runs outside the wait that registered it.
-/
namespace SpareNode.Network
open WaitState

/-- What a result tells of the state in which it is there. -/
def Justified (call : WaitCall) (s : WaitState) : Except NetworkError SocketWaitStatus → Prop
  | .ok .cancelled => s.stopRequested = true
  | .ok .timedOut => s.deadlinePassed call = true
  | .ok status => ∃ events ∈ s.reports, status.Shows call.interest events
  | .error e => e.operation = call.operation ∧ e.domain = .socket

structure WaitInvariant (call : WaitCall) (s : WaitState) : Prop where
  callback : s.requester = .notifying → s.registered = true
  inside : s.registered = true → s.phase.armed = true
  armed : call.cancellable = true → s.phase.armed = true → s.requester = .idle → s.registered = true
  token : call.cancellable = false → s.requester = .idle
  opened : s.phase = .initializing ∨ s.phase = .arming ∨ s.registered = true → call.cancellable = true
  /-- No stop is slept through. -/
  woken : s.requester = .done → s.phase.sleeps = true → 0 < s.inFlight + s.wakes
  bounded : ∀ timeout, s.phase = .polling timeout → 0 ≤ timeout → call.deadline.isSome = true
  elapsed : s.phase = .elapsed → call.deadline.isSome = true
  expired : s.phase = .expired → s.deadlinePassed call = true
  reported : ∀ wake operation, s.phase = .draining wake operation ∨ s.phase = .inspecting wake operation →
    operation ∈ s.reports
  justified : ∀ result, s.phase.result = some result → Justified call s result

section
variable {call : WaitCall} {s t : WaitState}

theorem fresh_invariant (h : Fresh call s) : WaitInvariant call s := by
  obtain ⟨hphase,hunregistered,hrequester,htoken⟩ := h
  constructor
  · intro hnotifying
    exact absurd hnotifying hrequester
  · intro hregistered
    rw [hunregistered] at hregistered
    cases hregistered
  · intro _ harmed
    rw [hphase] at harmed
    cases harmed
  · exact htoken
  · simp [hphase,hunregistered]
  · intro _ hsleeps
    rw [hphase] at hsleeps
    cases hsleeps
  all_goals simp [hphase,WaitPhase.result]

theorem stopRequested_iff : s.stopRequested = true ↔ s.requester ≠ .idle := by simp [stopRequested]

theorem stopRequested_false : s.stopRequested = false ↔ s.requester = .idle := by simp [stopRequested]

theorem Justified.later {result : Except NetworkError SocketWaitStatus} (h : Justified call s result)
    (hstop : s.stopRequested = true → t.stopRequested = true) (hnow : s.now ≤ t.now)
    (hreports : ∀ events ∈ s.reports, events ∈ t.reports) : Justified call t result := by
  have hdeadline : s.deadlinePassed call = true → t.deadlinePassed call = true := by
    unfold deadlinePassed
    cases call.deadline with
    | none => exact id
    | some deadline =>
      intro hpassed
      exact decide_eq_true ((of_decide_eq_true hpassed).trans hnow)
  unfold Justified at h ⊢
  split
  · exact hstop h
  · exact hdeadline h
  · rename_i status hcancelled htimedOut
    obtain ⟨events,hmem,hshows⟩ : ∃ events ∈ s.reports, status.Shows call.interest events := by
      cases status with
      | cancelled => exact absurd rfl hcancelled
      | timedOut => exact absurd rfl htimedOut
      | _ => exact h
    exact ⟨events,hreports events hmem,hshows⟩
  · exact h

/-- A step that leaves the waiting thread where it is. -/
theorem WaitInvariant.others (h : WaitInvariant call s) (hphase : t.phase = s.phase)
    (hregistered : t.registered = s.registered) (hreports : t.reports = s.reports) (hnow : s.now ≤ t.now)
    (hcallback : t.requester = .notifying → s.registered = true)
    (hidle : t.requester = .idle → s.requester = .idle) (htoken : call.cancellable = false → t.requester = .idle)
    (hwoken : t.requester = .done → s.phase.sleeps = true → 0 < t.inFlight + t.wakes) : WaitInvariant call t := by
  have hstop : s.stopRequested = true → t.stopRequested = true := by
    intro hrequested
    exact stopRequested_iff.mpr fun hnone => stopRequested_iff.mp hrequested (hidle hnone)
  have hdeadline : s.deadlinePassed call = true → t.deadlinePassed call = true := by
    intro hpassed
    have htimedOut : Justified call s (.ok .timedOut) := hpassed
    exact htimedOut.later hstop hnow (hreports ▸ fun _ => id)
  constructor
  · rwa [hregistered]
  · rw [hregistered,hphase]
    exact h.inside
  · rw [hregistered,hphase]
    exact fun hcancellable harmed hnone => h.armed hcancellable harmed (hidle hnone)
  · exact htoken
  · rw [hphase,hregistered]
    exact h.opened
  · rwa [hphase]
  · rw [hphase]
    exact h.bounded
  · rw [hphase]
    exact h.elapsed
  · rw [hphase]
    exact fun hexpired => hdeadline (h.expired hexpired)
  · rw [hphase,hreports]
    exact h.reported
  · rw [hphase]
    exact fun result hresult => (h.justified result hresult).later hstop hnow (hreports ▸ fun _ => id)

theorem requestStop_invariant (h : WaitInvariant call s) : WaitInvariant call (s.step call .requestStop) := by
  unfold step
  dsimp only
  split
  · rename_i hcan
    rw [Bool.and_eq_true,Bool.not_eq_true',stopRequested_false] at hcan
    obtain ⟨hcancellable,hidle⟩ := hcan
    refine h.others rfl rfl rfl le_rfl ?_ ?_ ?_ ?_
    · intro hnotifying
      by_contra hregistered
      simp [hregistered] at hnotifying
    · intro hnone
      exact hidle
    · intro huncancellable
      rw [hcancellable] at huncancellable
      cases huncancellable
    · -- a sleeping wait has its callback registered, which runs next
      intro hdone hsleeps
      have harmed : s.phase.armed = true := by
        cases hphase : s.phase <;> simp_all [WaitPhase.sleeps,WaitPhase.armed]
      simp [h.armed hcancellable harmed hidle] at hdone
  · exact h

theorem notify_invariant (h : WaitInvariant call s) : WaitInvariant call (s.step call .notify) := by
  unfold step
  dsimp only
  split
  · rename_i hnotifying
    refine h.others rfl rfl rfl le_rfl (by simp) (by simp) ?_ ?_
    · intro huncancellable
      rw [h.token huncancellable] at hnotifying
      cases hnotifying
    · intro _ _
      exact Nat.add_pos_left (Nat.succ_pos _) _
  · exact h

theorem deliver_invariant (h : WaitInvariant call s) : WaitInvariant call (s.step call .deliver) := by
  unfold step
  dsimp only
  split
  · rename_i hflight
    refine h.others rfl rfl rfl le_rfl h.callback id h.token ?_
    intro _ _
    -- a datagram that finds the socket full is lost, but then others are there
    have hcapacity := call.wakeCapacity_pos
    dsimp only
    split <;> omega
  · exact h

theorem environment_invariant (h : WaitInvariant call s) {move : WaitStep}
    (hmove : (∃ now, move = .tick now) ∨ (∃ state, move = .socketChanges state) ∨
      ∃ state, move = .wakeChanges state) : WaitInvariant call (s.step call move) := by
  rcases hmove with ⟨now,rfl⟩ | ⟨state,rfl⟩ | ⟨state,rfl⟩
  · unfold step
    dsimp only
    split
    · rename_i hlater
      exact h.others rfl rfl rfl hlater h.callback id h.token h.woken
    · exact h
  · exact h.others rfl rfl rfl le_rfl h.callback id h.token h.woken
  · exact h.others rfl rfl rfl le_rfl h.callback id h.token h.woken

theorem WaitInvariant.unregistered (h : WaitInvariant call s) (hphase : s.phase.armed = false) : s.registered = false := by
  rw [← Bool.not_eq_true]
  intro hregistered
  rw [h.inside hregistered] at hphase
  cases hphase

/-- What the phase that a step leads to has to keep. -/
structure Arrival (call : WaitCall) (t : WaitState) : Prop where
  opened : t.phase = .initializing ∨ t.phase = .arming → call.cancellable = true
  woken : t.requester = .done → t.phase.sleeps = true → 0 < t.inFlight + t.wakes
  bounded : ∀ timeout, t.phase = .polling timeout → 0 ≤ timeout → call.deadline.isSome = true
  elapsed : t.phase = .elapsed → call.deadline.isSome = true
  expired : t.phase = .expired → t.deadlinePassed call = true
  reported : ∀ wake operation, t.phase = .draining wake operation ∨ t.phase = .inspecting wake operation →
    operation ∈ t.reports
  justified : ∀ result, t.phase.result = some result → Justified call t result

theorem WaitInvariant.arrive (h : WaitInvariant call s) (hrequester : t.requester = s.requester)
    (hregistered : t.registered = s.registered) (hkept : s.registered = true → t.phase.armed = true)
    (harmed : call.cancellable = true → t.phase.armed = true → s.phase.armed = true) (harrival : Arrival call t) :
    WaitInvariant call t := by
  constructor
  · rw [hrequester,hregistered]
    exact h.callback
  · rw [hregistered]
    exact hkept
  · rw [hrequester,hregistered]
    exact fun hcancellable hphase => h.armed hcancellable (harmed hcancellable hphase)
  · rw [hrequester]
    exact h.token
  · rw [hregistered,← or_assoc]
    exact fun hopened => hopened.elim harrival.opened fun hkeeps => h.opened (.inr (.inr hkeeps))
  · exact harrival.woken
  · exact harrival.bounded
  · exact harrival.elapsed
  · exact harrival.expired
  · exact harrival.reported
  · exact harrival.justified

/-- An arrival where the thread neither sleeps nor has a result. -/
theorem Arrival.passing (hphase : t.phase = .checkingDeadline ∨
    (t.phase = .initializing ∨ t.phase = .arming) ∧ call.cancellable = true) : Arrival call t := by
  rcases hphase with hphase | ⟨hphase | hphase,hcancellable⟩
  · constructor <;> simp [hphase,WaitPhase.sleeps,WaitPhase.result]
  · constructor <;> simp [hphase,hcancellable,WaitPhase.sleeps,WaitPhase.result]
  · constructor <;> simp [hphase,hcancellable,WaitPhase.sleeps,WaitPhase.result]

theorem Arrival.finished {result : Except NetworkError SocketWaitStatus}
    (hphase : t.phase = .leaving result ∨ t.phase = .returned result) (hresult : Justified call t result) :
    Arrival call t := by
  rcases hphase with hphase | hphase <;> constructor <;> simp [hphase,WaitPhase.sleeps,WaitPhase.result,hresult]

/-- `poll` has a timeout exactly when there is a deadline. -/
theorem nativeTimeout_deadline {deadline : Option ℤ} {now : ℤ} (h : 0 ≤ nativeTimeoutMilliseconds deadline now) :
    deadline.isSome = true := by
  cases deadline with
  | none =>
    rw [nativeTimeoutMilliseconds_none] at h
    exact absurd h (by decide)
  | some deadline => rfl

theorem Arrival.polling {timeout : ℤ} (hphase : t.phase = .polling timeout)
    (htimeout : timeout = nativeTimeoutMilliseconds call.deadline t.now)
    (hwoken : t.requester = .done → 0 < t.inFlight + t.wakes) : Arrival call t := by
  constructor
  · simp [hphase]
  · intro hdone _
    exact hwoken hdone
  · intro other hother hnonneg
    rw [hphase] at hother
    obtain rfl := WaitPhase.polling.inj hother
    rw [htimeout] at hnonneg
    exact nativeTimeout_deadline hnonneg
  all_goals simp [hphase,WaitPhase.result]

theorem WaitInvariant.finish (h : WaitInvariant call s) (harmed : s.phase.armed = true)
    {result : Except NetworkError SocketWaitStatus} (hresult : Justified call s result) :
    WaitInvariant call (s.finish call result) := by
  refine h.arrive rfl rfl ?_ (fun _ _ => harmed) (@Arrival.finished call _ result ?_ ?_)
  · intro hregistered
    rw [WaitState.finish,if_pos (h.opened (.inr (.inr hregistered)))]
    rfl
  · unfold WaitState.finish
    dsimp only
    split
    · exact .inl rfl
    · exact .inr rfl
  · exact hresult.later id le_rfl fun _ => id

/-- A step back into `poll`. -/
theorem WaitInvariant.enterPoll (h : WaitInvariant call s) (harmed : call.cancellable = true → s.phase.armed = true)
    (hwoken : s.requester = .done → 0 < s.inFlight + s.wakes) : WaitInvariant call (s.enterPoll call) :=
  h.arrive rfl rfl (fun _ => rfl) (fun hcancellable _ => harmed hcancellable) (.polling rfl rfl hwoken)

theorem arm_invariant (h : WaitInvariant call s) (hphase : s.phase = .arming) :
    WaitInvariant call (s.arm.enterPoll call) := by
  have hunregistered := h.unregistered (by rw [hphase]; rfl)
  have hcancellable := h.opened (.inr (.inl hphase))
  have hsilent : s.requester ≠ .notifying := fun hnotifying => by simp [h.callback hnotifying] at hunregistered
  unfold arm
  split
  · -- the stop has been requested: the constructor sends the datagram itself
    rename_i hrequested
    have harrival : Arrival call
        (WaitState.enterPoll call { s with inFlight := s.inFlight + 1 }) :=
      .polling rfl rfl fun _ => Nat.add_pos_left (Nat.succ_pos _) _
    refine ⟨h.callback,fun _ => rfl,?_,h.token,fun _ => hcancellable,harrival.woken,harrival.bounded,harrival.elapsed,
      harrival.expired,harrival.reported,harrival.justified⟩
    intro _ _ hidle
    exact absurd hidle (stopRequested_iff.mp hrequested)
  · rename_i hrequested
    rw [stopRequested_iff,not_not] at hrequested
    have harrival : Arrival call (WaitState.enterPoll call { s with registered := true }) := by
      refine .polling rfl rfl ?_
      intro hdone
      rw [show s.requester = .done from hdone] at hrequested
      cases hrequested
    exact ⟨fun _ => rfl,fun _ => rfl,fun _ _ _ => rfl,h.token,fun _ => hcancellable,harrival.woken,harrival.bounded,
      harrival.elapsed,harrival.expired,harrival.reported,harrival.justified⟩

theorem leave_invariant (h : WaitInvariant call s) {result : Except NetworkError SocketWaitStatus}
    (hphase : s.phase = .leaving result) (hfree : s.requester ≠ .notifying) :
    WaitInvariant call { s with registered := false, phase := .returned result } := by
  have harrival : Arrival call { s with registered := false, phase := .returned result } :=
    .finished (.inr rfl) ((h.justified result (by rw [hphase]; rfl)).later id le_rfl fun _ => id)
  refine ⟨fun hnotifying => absurd hnotifying hfree,?_,?_,h.token,?_,harrival.woken,harrival.bounded,harrival.elapsed,
    harrival.expired,harrival.reported,harrival.justified⟩
  · intro hregistered
    cases hregistered
  · intro _ harmed
    cases harmed
  · rintro (hopened | hopened | hopened) <;> cases hopened

/-- A status of the socket is one of the events that have been reported. -/
theorem inspected_justified {events : PollEvents} (hmem : events ∈ s.reports) : Justified call s
    (inspectOperationEntry call.operation call.interest ((operationEntry call.interest).polled events)) := by
  rcases inspectOperationEntry_cases call.operation call.interest events with
    ⟨status,hstatus,hshows⟩ | herror
  · rw [hstatus]
    cases status with
    | cancelled => exact hshows.elim
    | timedOut => exact hshows.elim
    | _ => exact ⟨events,hmem,hshows⟩
  · rw [herror]
    exact ⟨rfl,rfl⟩

theorem inspectWake_invariant (h : WaitInvariant call s) {wake operation : PollEvents}
    (hphase : s.phase = .inspecting wake operation) : WaitInvariant call (s.inspectWake call wake operation) := by
  have harmed : s.phase.armed = true := by rw [hphase]; rfl
  unfold inspectWake
  dsimp only
  split
  · rename_i hrequested
    exact h.finish harmed hrequested
  rename_i hrequested
  rw [stopRequested_iff,not_not] at hrequested
  split
  · exact h.finish harmed ⟨rfl,rfl⟩
  split
  · -- the datagrams were old ones: no stop has been requested since
    refine h.enterPoll (fun _ => harmed) ?_
    intro hdone
    rw [hrequested] at hdone
    cases hdone
  · exact h.finish harmed (inspected_justified (h.reported wake operation (.inr hphase)))

theorem reportEvents_invariant (h : WaitInvariant call s) (harmed : s.phase.armed = true) :
    WaitInvariant call (s.reportEvents call) := by
  have hreported : WaitInvariant call { s with reports := s.reports ++ [s.socketEvents call] } := by
    refine ⟨h.callback,h.inside,h.armed,h.token,h.opened,h.woken,h.bounded,h.elapsed,h.expired,?_,?_⟩
    · intro wake operation hphase
      exact List.mem_append_left _ (h.reported wake operation hphase)
    · intro result hresult
      exact (h.justified result hresult).later id le_rfl fun _ => List.mem_append_left _
  have hmem : s.socketEvents call ∈ s.reports ++ [s.socketEvents call] :=
    List.mem_append_right _ (List.mem_singleton_self _)
  have harrive (phase : WaitPhase) (hphase : phase = .draining (s.wakeEvents call) (s.socketEvents call) ∨
      phase = .inspecting (s.wakeEvents call) (s.socketEvents call)) :
      WaitInvariant call { s with phase := phase, reports := s.reports ++ [s.socketEvents call] } := by
    refine hreported.arrive rfl rfl ?_ (fun _ _ => harmed) ?_
    · rcases hphase with rfl | rfl <;> exact fun _ => rfl
    · rcases hphase with rfl | rfl <;> constructor <;> simp [WaitPhase.sleeps,WaitPhase.result]
  unfold reportEvents
  dsimp only
  split
  · split
    · exact harrive _ (.inl rfl)
    · exact harrive _ (.inr rfl)
  · exact hreported.finish harmed (inspected_justified hmem)

theorem proceed_invariant (h : WaitInvariant call s) {answer : KernelAnswer} (ht : s.proceed call answer = some t) :
    WaitInvariant call t := by
  unfold proceed at ht
  cases hphase : s.phase with
  | checkingStop =>
    have hfree := h.unregistered (by rw [hphase]; rfl)
    rw [hphase] at ht
    obtain rfl := Option.some.inj ht
    split
    · rename_i hrequested
      exact h.arrive rfl rfl (by simp [hfree]) (by simp [WaitPhase.armed]) (.finished (.inr rfl) hrequested)
    · exact h.arrive rfl rfl (by simp [hfree]) (by simp [WaitPhase.armed]) (.passing (.inl rfl))
  | checkingDeadline =>
    have hfree := h.unregistered (by rw [hphase]; rfl)
    rw [hphase] at ht
    obtain rfl := Option.some.inj ht
    split
    · rename_i hpassed
      exact h.arrive rfl rfl (by simp [hfree]) (by simp [WaitPhase.armed]) (.finished (.inr rfl) hpassed)
    split
    · rename_i hcancellable
      exact h.arrive rfl rfl (by simp [hfree]) (by simp [WaitPhase.armed]) (.passing (.inr ⟨.inl rfl,hcancellable⟩))
    · rename_i huncancellable
      refine h.enterPoll (fun hcancellable => absurd hcancellable huncancellable) ?_
      intro hdone
      rw [h.token (Bool.eq_false_iff.mpr huncancellable)] at hdone
      cases hdone
  | initializing =>
    have hfree := h.unregistered (by rw [hphase]; rfl)
    have hcancellable := h.opened (.inl hphase)
    rw [hphase] at ht
    dsimp only at ht
    split at ht
    · obtain rfl := Option.some.inj ht
      exact h.arrive rfl rfl (by simp [hfree]) (by simp [WaitPhase.armed]) (.passing (.inr ⟨.inr rfl,hcancellable⟩))
    split at ht
    · obtain rfl := Option.some.inj ht
      exact h.arrive rfl rfl (by simp [hfree]) (by simp [WaitPhase.armed]) (.finished (.inr rfl) ⟨rfl,rfl⟩)
    · obtain rfl := Option.some.inj ht
      exact h.arrive rfl rfl (by simp [hfree]) (by simp [WaitPhase.armed]) (.passing (.inr ⟨.inr rfl,hcancellable⟩))
  | arming =>
    rw [hphase] at ht
    obtain rfl := Option.some.inj ht
    exact arm_invariant h hphase
  | polling timeout =>
    have harmed : s.phase.armed = true := by rw [hphase]; rfl
    have hwoken := fun hdone => h.woken hdone (by rw [hphase]; rfl)
    rw [hphase] at ht
    dsimp only at ht
    cases answer with
    | proceeds =>
      dsimp only at ht
      split at ht
      · cases ht
      · obtain rfl := Option.some.inj ht
        exact reportEvents_invariant h harmed
    | zero =>
      dsimp only at ht
      split at ht
      · cases ht
      · rename_i hnonneg
        obtain rfl := Option.some.inj ht
        have hdeadline := h.bounded timeout hphase (not_lt.mp hnonneg)
        refine h.arrive rfl rfl (fun _ => rfl) (fun _ _ => harmed) ?_
        constructor
        · simp
        · exact fun hdone _ => hwoken hdone
        · simp
        · exact fun _ => hdeadline
        all_goals simp [WaitPhase.result]
    | fails code =>
      dsimp only at ht
      split at ht
      · obtain rfl := Option.some.inj ht
        exact h.enterPoll (fun _ => harmed) hwoken
      · obtain rfl := Option.some.inj ht
        exact h.finish harmed ⟨rfl,rfl⟩
  | elapsed =>
    have harmed : s.phase.armed = true := by rw [hphase]; rfl
    have hwoken := fun hdone => h.woken hdone (by rw [hphase]; rfl)
    have hdeadline := h.elapsed hphase
    rw [hphase] at ht
    obtain rfl := Option.some.inj ht
    split
    · exact h.enterPoll (fun _ => harmed) hwoken
    · rename_i hpassed
      rw [hdeadline,Bool.true_and,Bool.not_eq_true',Bool.not_eq_false] at hpassed
      refine h.arrive rfl rfl (fun _ => rfl) (fun _ _ => harmed) ?_
      constructor
      · simp
      · simp [WaitPhase.sleeps]
      · simp
      · simp
      · exact fun _ => hpassed
      all_goals simp [WaitPhase.result]
  | expired =>
    have harmed : s.phase.armed = true := by rw [hphase]; rfl
    have hpassed := h.expired hphase
    rw [hphase] at ht
    obtain rfl := Option.some.inj ht
    refine h.finish harmed ?_
    split
    · rename_i hrequested
      exact (Bool.and_eq_true_iff.mp hrequested).2
    · exact hpassed
  | draining wake operation =>
    have harmed : s.phase.armed = true := by rw [hphase]; rfl
    have hmem := h.reported wake operation (.inl hphase)
    have harrival : WaitInvariant call { s with phase := .inspecting wake operation } := by
      refine h.arrive rfl rfl (fun _ => rfl) (fun _ _ => harmed) ?_
      constructor <;> simp [WaitPhase.sleeps,WaitPhase.result,hmem]
    rw [hphase] at ht
    dsimp only at ht
    split at ht
    · split at ht
      · obtain rfl := Option.some.inj ht
        refine h.others hphase.symm rfl rfl le_rfl h.callback id h.token ?_
        intro _ hsleeps
        rw [hphase] at hsleeps
        cases hsleeps
      · obtain rfl := Option.some.inj ht
        exact harrival
    · obtain rfl := Option.some.inj ht
      exact harrival
  | inspecting wake operation =>
    rw [hphase] at ht
    obtain rfl := Option.some.inj ht
    exact inspectWake_invariant h hphase
  | leaving result =>
    rw [hphase] at ht
    dsimp only at ht
    split at ht
    · cases ht
    · rename_i hfree
      obtain rfl := Option.some.inj ht
      exact leave_invariant h hphase hfree
  | returned result =>
    rw [hphase] at ht
    cases ht

theorem step_invariant (h : WaitInvariant call s) (move : WaitStep) : WaitInvariant call (s.step call move) := by
  cases move with
  | requestStop => exact requestStop_invariant h
  | notify => exact notify_invariant h
  | deliver => exact deliver_invariant h
  | tick now => exact environment_invariant h (.inl ⟨now,rfl⟩)
  | socketChanges state => exact environment_invariant h (.inr (.inl ⟨state,rfl⟩))
  | wakeChanges state => exact environment_invariant h (.inr (.inr ⟨state,rfl⟩))
  | proceed answer =>
    unfold step
    dsimp only
    cases ht : s.proceed call answer with
    | none => exact h
    | some t => exact proceed_invariant h ht

theorem run_invariant (h : WaitInvariant call s) (steps : List WaitStep) : WaitInvariant call (s.run call steps) := by
  unfold run
  induction steps generalizing s with
  | nil => exact h
  | cons move steps ih => exact ih (step_invariant h move)

end
end SpareNode.Network
