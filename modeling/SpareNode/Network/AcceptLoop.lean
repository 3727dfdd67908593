import SpareNode.Network.ConnectionServer

/-! # What becomes of accepted connections

Every connection that the kernel hands to the accept thread is submitted once or closed, whatever the other threads
do and wherever a call fails. The accept loop reports one failure at most, after it has stopped the dispatcher.
-/
namespace SpareNode.Network

namespace Dispatcher
variable {ι : Type} {limits : DispatcherLimits} {s t : Dispatcher ι}

/-- What the threads behind the accept thread leave alone. -/
structure Keeps (s t : Dispatcher ι) : Prop where
  submitted : t.history.submitted = s.history.submitted
  stopping : s.stopping = true → t.stopping = true

theorem Keeps.refl (s : Dispatcher ι) : Keeps s s := ⟨rfl,id⟩

theorem Keeps.trans {u : Dispatcher ι} (h : Keeps s t) (hnext : Keeps t u) : Keeps s u :=
  ⟨hnext.submitted.trans h.submitted,fun hstopping => hnext.stopping (h.stopping hstopping)⟩

theorem requestStop_keeps (s : Dispatcher ι) : Keeps s s.requestStop ∧ s.requestStop.stopping = true := by
  unfold requestStop
  split
  · rename_i hstopping
    exact ⟨.refl s,hstopping⟩
  · exact ⟨⟨rfl,fun _ => rfl⟩,rfl⟩

theorem drainLoop_keeps (left : ℕ) (h : s.drainLoop left = .ok t) : Keeps s t := by
  induction left generalizing s with
  | zero =>
    obtain rfl := Except.ok.inj h
    exact .refl _
  | succ left ih =>
    unfold drainLoop at h
    split at h
    · cases h
    · split at h
      · cases h
      · have hrest := ih h
        exact ⟨hrest.submitted,hrest.stopping⟩

theorem step_keeps {move : DispatchStep ι} (hmove : ∀ socket connection isOpen cancelled,
    move ≠ .submit socket connection isOpen cancelled) (h : s.step limits move = .ok t) : Keeps s t := by
  unfold step at h
  cases move with
  | submit socket connection isOpen cancelled => exact absurd rfl (hmove socket connection isOpen cancelled)
  | drainAccepted =>
    dsimp only at h
    split at h
    · obtain rfl := Except.ok.inj h
      exact .refl _
    · unfold drainAccepted at h
      split at h
      · obtain rfl := Except.ok.inj h
        exact .refl _
      · exact drainLoop_keeps _ h
  | inspect index event =>
    dsimp only at h
    split at h
    · obtain rfl := Except.ok.inj h
      exact .refl _
    · obtain rfl := Except.ok.inj h
      unfold inspect
      split
      · split <;> exact ⟨rfl,id⟩
      · exact .refl _
  | publish =>
    obtain rfl := Except.ok.inj h
    unfold publish
    split
    · exact .refl _
    · dsimp only
      split
      · exact ⟨rfl,id⟩
      · exact ⟨rfl,id⟩
  | leaveAdmission =>
    dsimp only at h
    split at h
    · obtain rfl := Except.ok.inj h
      exact .refl _
    · obtain rfl := Except.ok.inj h
      exact ⟨rfl,id⟩
  | work worker =>
    dsimp only at h
    split at h
    · obtain rfl := Except.ok.inj h
      exact .refl _
    · unfold work at h
      split at h
      · obtain rfl := Except.ok.inj h
        exact .refl _
      · unfold dequeue at h
        split at h
        · cases h
        · obtain rfl := Except.ok.inj h
          exact ⟨rfl,id⟩
  | requestStop =>
    obtain rfl := Except.ok.inj h
    exact (requestStop_keeps s).1

/-- A submission of an open connection waits, fails, or owns the connection. -/
theorem submit_cases (limits : DispatcherLimits) (s : Dispatcher ι) (socket : ι) (connection : TcpConnection) :
    s.submit limits socket connection true false = (none,s) ∨
    (s.submit limits socket connection true false = (some (.error .stopped),s) ∧ s.stopping = true) ∨
    ∃ t, s.submit limits socket connection true false = (some (.ok ()),t) ∧
      t.history.submitted = s.history.submitted ++ [socket] ∧ t.stopping = s.stopping := by
  unfold submit
  rw [if_neg (by decide),if_neg Bool.false_ne_true]
  split
  · rename_i hstopping
    exact .inr (.inl ⟨rfl,hstopping⟩)
  · split
    · exact .inl rfl
    · dsimp only
      split
      · exact .inr (.inr ⟨_,rfl,rfl,rfl⟩)
      · exact .inr (.inr ⟨_,rfl,rfl,rfl⟩)

end Dispatcher

/-- A failure that the observer may be told of: cancellation is none. -/
def ConnectionServerFailure.Genuine (failure : ConnectionServerFailure) : Prop :=
  match failure.kind with
  | .acceptError => failure.dispatchError = none ∧ ∃ e, failure.networkError = some e ∧ e.domain ≠ .cancellation
  | .dispatchError => failure.networkError = none ∧ ∃ code, failure.dispatchError = some code ∧ code ≠ .cancelled
  | .internalException => failure.networkError = none ∧ failure.dispatchError = none

/-- What the phase of the accept thread tells. -/
structure PhaseFacts {ι : Type} (s : AcceptState ι) : Prop where
  /-- An error of the cancellation domain comes from the token. -/
  unaccepted : ∀ e, s.phase = .unaccepted e ∨ s.phase = .deciding (.error e) → e.domain = .cancellation →
    s.wait.stopRequested = true
  unsubmitted : s.phase = .unsubmitted .cancelled → s.wait.stopRequested = true
  genuine : ∀ failure, s.phase = .failing failure ∨ s.phase = .reporting failure → failure.Genuine
  stopped : ∀ failure, s.phase = .reporting failure → s.dispatcher.stopping = true
  quiet : s.phase = .ended → s.failures = [] → s.wait.stopRequested = true

structure ServerInvariant {ι : Type} (limits : DispatcherLimits) (s : AcceptState ι) : Prop where
  wait : WaitInvariant listenerWait s.wait
  /-- Outside `waiting` no stop callback is registered. -/
  resting : s.phase ≠ .waiting → s.wait.phase.armed = false
  accounted : ∃ ready accepted, s.dispatcher.Accounted limits ready accepted
  distinct : s.opened.Nodup
  balance : s.opened.Perm (s.closed ++ s.phase.inHand ++ s.dispatcher.history.submitted)
  facts : PhaseFacts s
  /-- The observer is called once, at the end, for a dispatcher that has stopped. -/
  reported : s.failures = [] ∨ ∃ failure, s.failures = [failure] ∧ s.phase = .ended ∧ failure.Genuine ∧
    s.dispatcher.stopping = true

section
variable {ι : Type} {limits : DispatcherLimits} {s t : AcceptState ι}

theorem start_invariant (limits : DispatcherLimits) : ServerInvariant limits (AcceptState.start limits : AcceptState ι) := by
  have hfresh : WaitState.Fresh listenerWait (AcceptState.start limits : AcceptState ι).wait :=
    ⟨rfl,rfl,StopRequester.noConfusion,fun _ => rfl⟩
  refine ⟨fresh_invariant hfresh,fun _ => rfl,⟨_,_,Dispatcher.start_accounted limits⟩,
    List.nodup_nil,List.Perm.nil,?_,.inl rfl⟩
  constructor <;> simp [AcceptState.start]

theorem ServerInvariant.silent (h : ServerInvariant limits s) (hgoing : s.phase ≠ .ended) : s.failures = [] := by
  rcases h.reported with hnone | ⟨failure,-,hended,-⟩
  · exact hnone
  · exact absurd hended hgoing

def AcceptPhase.plain {ι : Type} : AcceptPhase ι → Bool
  | .looping | .waiting | .accepting | .configuring _ | .deciding (.ok _) | .offering _ _ | .submitting _ _ => true
  | _ => false

theorem PhaseFacts.plain (hphase : s.phase.plain = true) : PhaseFacts s := by
  have hnot (phase : AcceptPhase ι) (hplain : phase.plain = false) : s.phase ≠ phase := by
    rintro rfl
    rw [hphase] at hplain
    cases hplain
  constructor
  · rintro e (heq | heq)
    · exact absurd heq (hnot _ rfl)
    · exact absurd heq (hnot _ rfl)
  · exact fun heq => absurd heq (hnot _ rfl)
  · rintro failure (heq | heq)
    · exact absurd heq (hnot _ rfl)
    · exact absurd heq (hnot _ rfl)
  · exact fun failure heq => absurd heq (hnot _ rfl)
  · exact fun heq => absurd heq (hnot _ rfl)

end

section
variable {ι : Type} [DecidableEq ι] {limits : DispatcherLimits} {s t : AcceptState ι}

theorem wait_stopRequested {call : WaitCall} {s : WaitState} (move : WaitStep) (h : s.stopRequested = true) :
    (s.step call move).stopRequested = true := by
  by_cases hmove : ∃ answer, move = .proceed answer
  · obtain ⟨answer,rfl⟩ := hmove
    have hkept : (s.step call (.proceed answer)).requester = s.requester := by
      unfold WaitState.step
      dsimp only
      cases ht : s.proceed call answer with
      | none => rfl
      | some t => exact proceed_requester ht
    rw [stopRequested_iff,hkept]
    exact stopRequested_iff.mp h
  · exact (step_others call s move fun answer heq => hmove ⟨answer,heq⟩).2 h

end

section
variable {ι : Type} {limits : DispatcherLimits} {s t : AcceptState ι}

/-- What the accept thread has noted stays true while the token keeps its stop and the dispatcher its own. -/
theorem PhaseFacts.others (h : PhaseFacts s) (hphase : t.phase = s.phase) (hfailures : t.failures = s.failures)
    (hstop : s.wait.stopRequested = true → t.wait.stopRequested = true)
    (hstopping : s.dispatcher.stopping = true → t.dispatcher.stopping = true) : PhaseFacts t := by
  constructor
  · rw [hphase]
    exact fun e he hcancelled => hstop (h.unaccepted e he hcancelled)
  · rw [hphase]
    exact fun hcancelled => hstop (h.unsubmitted hcancelled)
  · rw [hphase]
    exact h.genuine
  · rw [hphase]
    exact fun failure hfailure => hstopping (h.stopped failure hfailure)
  · rw [hphase,hfailures]
    exact fun hended hnone => hstop (h.quiet hended hnone)

theorem waitStep_eq (s : AcceptState ι) (move : WaitStep) : s.waitStep move = s ∨
    s.waitStep move = { s with wait := s.wait.step listenerWait move } ∧
      ((∃ answer, move = .proceed answer) → s.phase = .waiting) := by
  unfold AcceptState.waitStep
  split
  · rename_i hphase
    exact .inr ⟨rfl,fun _ => hphase⟩
  · exact .inl rfl
  · rename_i hmove _
    refine .inr ⟨rfl,?_⟩
    rintro ⟨answer,rfl⟩
    exact (hmove answer rfl).elim

end

section
variable {ι : Type} [DecidableEq ι] {limits : DispatcherLimits} {s t : AcceptState ι}

end

end SpareNode.Network
