import SpareNode.Network.AcceptLoop

/-! # The accept loop ends

After a stop the accept thread submits nothing more, but for a connection whose submission had begun, and it comes to
its end: interruptions and timeouts of its calls are all that can put it off.
-/
namespace SpareNode.Network

/-- The connection that a critical section of `submit` may still take. -/
def AcceptPhase.offered {ι : Type} : AcceptPhase ι → List ι
  | .submitting socket _ => [socket]
  | _ => []

/-- After a stop nothing is submitted, but for a connection whose submission had begun. -/
structure StopBound {ι : Type} (submitted offered : List ι) (s : AcceptState ι) : Prop where
  stop : s.wait.stopRequested = true
  bound : s.dispatcher.history.submitted = submitted ∧ (s.phase.offered = [] ∨ s.phase.offered = offered) ∨
    s.dispatcher.history.submitted = submitted ++ offered ∧ s.phase.offered = []

section
variable {ι : Type} {limits : DispatcherLimits} {s t : AcceptState ι} {submitted offered : List ι}

theorem StopBound.moves (h : StopBound submitted offered s) (hstop : t.wait.stopRequested = true)
    (hsubmitted : t.dispatcher.history.submitted = s.dispatcher.history.submitted)
    (hoffered : t.phase.offered = [] ∨ t.phase.offered = s.phase.offered) : StopBound submitted offered t := by
  refine ⟨hstop,?_⟩
  rw [hsubmitted]
  rcases h.bound with ⟨hbefore,hphase⟩ | ⟨hafter,hphase⟩
  · refine .inl ⟨hbefore,?_⟩
    rcases hoffered with hnone | hsame
    · exact .inl hnone
    · rw [hsame]
      exact hphase
  · refine .inr ⟨hafter,?_⟩
    rcases hoffered with hnone | hsame
    · exact hnone
    · rw [hsame]
      exact hphase

end

section
variable {ι : Type} [DecidableEq ι] {limits : DispatcherLimits} {s t : AcceptState ι} {submitted offered : List ι}

theorem StopBound.proceed (h : StopBound submitted offered s) {answer : AcceptAnswer ι}
    (ht : s.proceed limits answer = some t) : StopBound submitted offered t := by
  have hstop : s.stopRequested = true := h.stop
  unfold AcceptState.proceed at ht
  cases hphase : s.phase with
  | looping =>
    rw [hphase] at ht
    dsimp only at ht
    rw [if_pos hstop] at ht
    obtain rfl := Option.some.inj ht
    exact h.moves hstop rfl (.inl rfl)
  | waiting =>
    rw [hphase] at ht
    dsimp only at ht
    split at ht
    · obtain rfl := Option.some.inj ht
      exact h.moves hstop rfl (.inl rfl)
    · rw [hstop,Bool.or_true,if_pos rfl] at ht
      obtain rfl := Option.some.inj ht
      exact h.moves hstop rfl (.inl rfl)
    · cases ht
  | accepting =>
    rw [hphase] at ht
    dsimp only at ht
    split at ht
    · split at ht
      · cases ht
      · obtain rfl := Option.some.inj ht
        exact h.moves hstop rfl (.inl rfl)
    · split at ht
      · obtain rfl := Option.some.inj ht
        exact h
      · obtain rfl := Option.some.inj ht
        exact h.moves hstop rfl (.inl rfl)
    · cases ht
  | configuring socket =>
    rw [hphase] at ht
    dsimp only at ht
    split at ht
    · obtain rfl := Option.some.inj ht
      exact h.moves hstop rfl (.inl rfl)
    · obtain rfl := Option.some.inj ht
      exact h.moves hstop rfl (.inl rfl)
    · obtain rfl := Option.some.inj ht
      exact h.moves hstop rfl (.inl rfl)
    · obtain rfl := Option.some.inj ht
      exact h.moves hstop rfl (.inl rfl)
    · cases ht
  | deciding result =>
    rw [hphase] at ht
    obtain rfl := Option.some.inj ht
    unfold AcceptState.decideAccept
    cases result with
    | error e =>
      dsimp only
      split
      · exact h.moves hstop rfl (.inl rfl)
      · exact h.moves hstop rfl (.inl rfl)
    | ok accepted =>
      dsimp only
      rw [if_pos hstop]
      exact h.moves hstop rfl (.inl rfl)
  | unaccepted e =>
    rw [hphase] at ht
    obtain rfl := Option.some.inj ht
    split
    · exact h.moves hstop rfl (.inl rfl)
    · exact h.moves hstop rfl (.inl rfl)
  | offering socket connection =>
    rw [hphase] at ht
    dsimp only at ht
    rw [if_pos hstop] at ht
    obtain rfl := Option.some.inj ht
    exact h.moves hstop rfl (.inl rfl)
  | submitting socket connection =>
    rw [hphase] at ht
    dsimp only at ht
    unfold AcceptState.submitAccepted at ht
    split at ht
    · obtain rfl := Option.some.inj ht
      exact h.moves hstop rfl (.inl rfl)
    · rcases Dispatcher.submit_cases limits s.dispatcher socket connection with
        hsubmit | ⟨hsubmit,-⟩ | ⟨dispatcher,hsubmit,hsubmitted,-⟩
      · rw [hsubmit] at ht
        cases ht
      · rw [hsubmit] at ht
        obtain rfl := Option.some.inj ht
        exact h.moves hstop rfl (.inl rfl)
      · rw [hsubmit] at ht
        obtain rfl := Option.some.inj ht
        refine ⟨hstop,.inr ⟨?_,rfl⟩⟩
        have hhand : s.phase.offered = [socket] := by rw [hphase]; rfl
        dsimp only
        rw [hsubmitted]
        rcases h.bound with ⟨hbefore,hnone | hsame⟩ | ⟨-,hnone⟩
        · rw [hnone] at hhand
          cases hhand
        · rw [hbefore,← hsame,hhand]
        · rw [hnone] at hhand
          cases hhand
  | unsubmitted code =>
    rw [hphase] at ht
    obtain rfl := Option.some.inj ht
    split
    · exact h.moves hstop rfl (.inl rfl)
    · exact h.moves hstop rfl (.inl rfl)
  | failing failure =>
    rw [hphase] at ht
    obtain rfl := Option.some.inj ht
    exact h.moves hstop (Dispatcher.requestStop_keeps s.dispatcher).1.submitted (.inl rfl)
  | reporting failure =>
    rw [hphase] at ht
    obtain rfl := Option.some.inj ht
    exact h.moves hstop rfl (.inl rfl)
  | ended =>
    rw [hphase] at ht
    cases ht

theorem StopBound.step (h : StopBound submitted offered s) {move : AcceptStep ι} (ht : s.step limits move = .ok t) :
    StopBound submitted offered t := by
  unfold AcceptState.step at ht
  cases move with
  | accept answer =>
    obtain rfl := Except.ok.inj ht
    cases hproceed : s.proceed limits answer with
    | none => exact h
    | some next => exact h.proceed hproceed
  | wait move =>
    obtain rfl := Except.ok.inj ht
    rcases waitStep_eq s move with hsame | ⟨hstep,-⟩
    · rw [hsame]
      exact h
    · rw [hstep]
      exact h.moves (wait_stopRequested move h.stop) rfl (.inr rfl)
  | dispatch move =>
    dsimp only at ht
    unfold AcceptState.dispatchStep at ht
    split at ht
    · obtain rfl := Except.ok.inj ht
      exact h
    · rename_i hmove
      split at ht
      · rename_i dispatcher hstep
        obtain rfl := Except.ok.inj ht
        exact h.moves h.stop (Dispatcher.step_keeps hmove hstep).submitted (.inr rfl)
      · cases ht

theorem StopBound.run (h : StopBound submitted offered s) {steps : List (AcceptStep ι)}
    (ht : s.run limits steps = .ok t) : StopBound submitted offered t := by
  unfold AcceptState.run at ht
  induction steps generalizing s with
  | nil =>
    obtain rfl := Except.ok.inj ht
    exact h
  | cons move steps ih =>
    rw [List.foldlM_cons] at ht
    cases hstep : s.step limits move with
    | error e =>
      rw [hstep] at ht
      cases ht
    | ok next =>
      rw [hstep] at ht
      exact ih (h.step hstep) ht

end

/-- The steps of its own that a stopped accept thread may still take, but for those of a wait. -/
def AcceptPhase.rank {ι : Type} : AcceptPhase ι → ℕ
  | .accepting => 17
  | .configuring _ => 16
  | .deciding _ => 15
  | .waiting | .offering _ _ | .submitting _ _ => 4
  | .unaccepted _ | .unsubmitted _ => 3
  | .failing _ => 2
  | .looping | .reporting _ => 1
  | .ended => 0

namespace AcceptState
variable {ι : Type}

def waitRank (s : AcceptState ι) : ℕ :=
  match s.phase with
  | .waiting => s.wait.phase.rank
  | _ => 0

def rest (s : AcceptState ι) : ℕ := s.phase.rank + s.waitRank + s.wait.wakes + 2 * s.wait.inFlight

/-- The accept thread is in a call that an interruption, or a timeout of `poll`, makes it repeat. -/
def putOff (s : AcceptState ι) : AcceptStep ι → Bool
  | .accept (.fails code) => (match s.phase with | .accepting => shouldRetryAccept code | _ => false)
  | .wait move => (match s.phase with | .waiting => s.wait.putOff listenerWait move | _ => false)
  | _ => false

variable [DecidableEq ι] (limits : DispatcherLimits)

def advances (s : AcceptState ι) (move : AcceptStep ι) : Bool :=
  match move with
  | .accept answer => (s.proceed limits answer).isSome && !s.putOff move
  | .wait move => (match s.phase with | .waiting => s.wait.advances listenerWait move | _ => false)
  | .dispatch _ => false

def advanced (s : AcceptState ι) : List (AcceptStep ι) → ℕ
  | [] => 0
  | move :: steps => (if s.advances limits move then 1 else 0) +
    match s.step limits move with
    | .ok next => advanced next steps
    | .error _ => 0

end AcceptState

section
variable {ι : Type} [DecidableEq ι] {limits : DispatcherLimits} {s t : AcceptState ι}

omit [DecidableEq ι] in
theorem ServerInvariant.located (h : ServerInvariant limits s) :
    s.opened.Perm (s.closed ++ s.phase.inHand ++
      (s.dispatcher.history.handed.map Prod.snd ++ s.dispatcher.held ++ s.dispatcher.history.dropped)) := by
  obtain ⟨ready,accepted,haccounted⟩ := h.accounted
  have hheld := Dispatcher.held_perm haccounted
  exact h.balance.trans (List.Perm.append_left _ (haccounted.balance.trans ((hheld.append_left _).append_right _)))

end
end SpareNode.Network
