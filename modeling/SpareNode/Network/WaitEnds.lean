import SpareNode.Network.WaitRuns

/-! # Waits end

A stop that is requested while a wait watches the token is what the wait ends with, unless `poll` itself fails, and
the wait ends: only timeouts and interruptions of `poll` can put it off.
-/
namespace SpareNode.Network
open WaitState

/-- The error of a call of `poll` that fails in this step. -/
def WaitState.pollFailure (call : WaitCall) (s : WaitState) : WaitStep → List NetworkError
  | .proceed (.fails code) =>
    match s.phase with
    | .polling _ => if pollWasInterrupted code then [] else [⟨call.operation,.socket,code⟩]
    | _ => []
  | _ => []

/-- The errors of the calls of `poll` that fail in a run. -/
def pollFailures (call : WaitCall) (s : WaitState) : List WaitStep → List NetworkError
  | [] => []
  | move :: steps => s.pollFailure call move ++ pollFailures call (s.step call move) steps

/-- The result of a wait that does not miss a stop, with the errors of the failed calls of `poll`. -/
def Yielded (failures : List NetworkError) (result : Except NetworkError SocketWaitStatus) : Prop :=
  result = .ok .cancelled ∨ ∃ e ∈ failures, result = .error e

/-- The stop has been requested, and the wait cannot miss it any more. -/
def Yields (failures : List NetworkError) (s : WaitState) : Prop :=
  s.stopRequested = true ∧ (s.phase.watches = true ∨ ∃ result, s.phase.result = some result ∧ Yielded failures result)

section
variable {call : WaitCall} {s t : WaitState} {failures : List NetworkError}

theorem Yielded.mono {failures' : List NetworkError} {result : Except NetworkError SocketWaitStatus}
    (h : Yielded failures result) (hsubset : failures ⊆ failures') : Yielded failures' result := by
  rcases h with hcancelled | ⟨e,he,hresult⟩
  · exact .inl hcancelled
  · exact .inr ⟨e,hsubset he,hresult⟩

theorem WaitPhase.watches_result {phase : WaitPhase} (h : phase.watches = true) : phase.result = none := by
  cases phase with
  | checkingDeadline | initializing | arming | leaving result | returned result => cases h
  | _ => rfl

theorem finish_result (result : Except NetworkError SocketWaitStatus) :
    (s.finish call result).phase.result = some result := by
  unfold WaitState.finish
  dsimp only
  split <;> rfl

theorem Yields.finish {result : Except NetworkError SocketWaitStatus} (hstop : s.stopRequested = true)
    (hresult : Yielded failures result) : Yields failures (s.finish call result) :=
  ⟨hstop,.inr ⟨result,finish_result result,hresult⟩⟩

theorem WaitInvariant.stopped (h : WaitInvariant call s) (hstop : s.stopRequested = true) : call.cancellable = true := by
  by_contra huncancellable
  exact stopRequested_iff.mp hstop (h.token (Bool.eq_false_iff.mpr huncancellable))

theorem Yields.proceed (h : WaitInvariant call s) (hyields : Yields failures s) {answer : KernelAnswer}
    (ht : s.proceed call answer = some t) : Yields (failures ++ s.pollFailure call (.proceed answer)) t := by
  obtain ⟨hstop,hphases⟩ := hyields
  have hcancellable := h.stopped hstop
  unfold WaitState.proceed at ht
  cases hphase : s.phase with
  | checkingStop =>
    rw [hphase] at ht
    dsimp only at ht
    rw [if_pos hstop] at ht
    obtain rfl := Option.some.inj ht
    exact ⟨hstop,.inr ⟨_,rfl,.inl rfl⟩⟩
  | checkingDeadline | initializing | arming =>
    rw [hphase] at hphases
    rcases hphases with hwatches | ⟨result,hresult,-⟩
    · cases hwatches
    · cases hresult
  | polling timeout =>
    rw [hphase] at ht
    dsimp only at ht
    split at ht
    · split at ht
      · cases ht
      · obtain rfl := Option.some.inj ht
        unfold reportEvents
        rw [if_pos hcancellable]
        dsimp only
        split
        · exact ⟨hstop,.inl rfl⟩
        · exact ⟨hstop,.inl rfl⟩
    · split at ht
      · cases ht
      · obtain rfl := Option.some.inj ht
        exact ⟨hstop,.inl rfl⟩
    · split at ht
      · obtain rfl := Option.some.inj ht
        exact ⟨hstop,.inl rfl⟩
      · rename_i code hfailed
        obtain rfl := Option.some.inj ht
        have hfailure : s.pollFailure call (.proceed (.fails code)) = [⟨call.operation,.socket,code⟩] := by
          simp only [pollFailure,hphase,if_neg hfailed]
        rw [hfailure]
        exact .finish hstop (.inr ⟨_,List.mem_append_right _ (List.mem_singleton.mpr rfl),rfl⟩)
  | elapsed =>
    rw [hphase] at ht
    obtain rfl := Option.some.inj ht
    split
    · exact ⟨hstop,.inl rfl⟩
    · exact ⟨hstop,.inl rfl⟩
  | expired =>
    rw [hphase] at ht
    obtain rfl := Option.some.inj ht
    rw [hcancellable,hstop]
    exact .finish hstop (.inl rfl)
  | draining wake operation =>
    rw [hphase] at ht
    dsimp only at ht
    split at ht
    · split at ht
      · obtain rfl := Option.some.inj ht
        exact ⟨hstop,.inl rfl⟩
      · obtain rfl := Option.some.inj ht
        exact ⟨hstop,.inl rfl⟩
    · obtain rfl := Option.some.inj ht
      exact ⟨hstop,.inl rfl⟩
  | inspecting wake operation =>
    rw [hphase] at ht
    obtain rfl := Option.some.inj ht
    unfold inspectWake
    dsimp only
    rw [if_pos hstop]
    exact .finish hstop (.inl rfl)
  | leaving result =>
    rw [hphase] at ht hphases
    dsimp only at ht
    split at ht
    · cases ht
    · obtain rfl := Option.some.inj ht
      rcases hphases with hwatches | ⟨other,hother,hyielded⟩
      · cases hwatches
      · exact ⟨hstop,.inr ⟨other,hother,hyielded.mono (List.subset_append_left _ _)⟩⟩
  | returned result =>
    rw [hphase] at ht
    cases ht

@[simp] theorem finish_requester (result : Except NetworkError SocketWaitStatus) :
    (s.finish call result).requester = s.requester := rfl

@[simp] theorem enterPoll_requester : (s.enterPoll call).requester = s.requester := rfl

@[simp] theorem arm_requester : s.arm.requester = s.requester := by
  unfold arm
  split <;> rfl

@[simp] theorem reportEvents_requester : (s.reportEvents call).requester = s.requester := by
  unfold reportEvents
  dsimp only
  split
  · split <;> rfl
  · rfl

@[simp] theorem inspectWake_requester (wake operation : PollEvents) :
    (s.inspectWake call wake operation).requester = s.requester := by
  unfold inspectWake
  dsimp only
  repeat' split
  all_goals rfl

/-- The waiting thread leaves the stop to the thread that requests it. -/
theorem proceed_requester {answer : KernelAnswer} (ht : s.proceed call answer = some t) :
    t.requester = s.requester := by
  unfold WaitState.proceed at ht
  split at ht
  all_goals repeat' split at ht
  all_goals cases ht
  all_goals first | rfl | simp

/-- The others neither take the stop back nor move the waiting thread. -/
theorem step_others (call : WaitCall) (s : WaitState) (move : WaitStep) (hmove : ∀ answer, move ≠ .proceed answer) :
    (s.step call move).phase = s.phase ∧ (s.stopRequested = true → (s.step call move).stopRequested = true) := by
  unfold step
  cases move with
  | requestStop =>
    dsimp only
    split
    · refine ⟨rfl,fun _ => stopRequested_iff.mpr ?_⟩
      dsimp only
      split <;> decide
    · exact ⟨rfl,id⟩
  | notify =>
    dsimp only
    split
    · exact ⟨rfl,fun _ => rfl⟩
    · exact ⟨rfl,id⟩
  | deliver =>
    dsimp only
    split <;> exact ⟨rfl,id⟩
  | tick now =>
    dsimp only
    split <;> exact ⟨rfl,id⟩
  | socketChanges state => exact ⟨rfl,id⟩
  | wakeChanges state => exact ⟨rfl,id⟩
  | proceed answer => exact absurd rfl (hmove answer)

theorem Yields.mono {failures' : List NetworkError} (h : Yields failures s) (hsubset : failures ⊆ failures') :
    Yields failures' s := by
  refine ⟨h.1,?_⟩
  rcases h.2 with hwatches | ⟨result,hresult,hyielded⟩
  · exact .inl hwatches
  · exact .inr ⟨result,hresult,hyielded.mono hsubset⟩

theorem Yields.step (h : WaitInvariant call s) (hyields : Yields failures s) (move : WaitStep) :
    Yields (failures ++ s.pollFailure call move) (s.step call move) := by
  by_cases hmove : ∃ answer, move = .proceed answer
  · obtain ⟨answer,rfl⟩ := hmove
    unfold WaitState.step
    dsimp only
    cases ht : s.proceed call answer with
    | none => exact hyields.mono (List.subset_append_left _ _)
    | some t => exact hyields.proceed h ht
  · obtain ⟨hphase,hstop⟩ := step_others call s move fun answer heq => hmove ⟨answer,heq⟩
    have hstays : Yields failures (s.step call move) := by
      refine ⟨hstop hyields.1,?_⟩
      rw [hphase]
      exact hyields.2
    exact hstays.mono (List.subset_append_left _ _)

theorem Yields.run (h : WaitInvariant call s) (hyields : Yields failures s) (steps : List WaitStep) :
    Yields (failures ++ pollFailures call s steps) (s.run call steps) := by
  unfold WaitState.run
  induction steps generalizing s failures with
  | nil => exact hyields.mono (List.subset_append_left _ _)
  | cons move steps ih =>
    rw [pollFailures,← List.append_assoc]
    exact ih (step_invariant h move) (hyields.step h move)

end

/-- The calls that a wait may still make before it returns. -/
def WaitPhase.rank : WaitPhase → ℕ
  | .checkingStop => 10
  | .checkingDeadline => 9
  | .initializing => 8
  | .arming => 7
  | .elapsed => 5
  | .polling _ => 4
  | .draining _ _ => 3
  | .expired | .inspecting _ _ => 2
  | .leaving _ => 1
  | .returned _ => 0

/-- What is left of a stopped wait; a datagram on its way is delivered and drained. -/
def WaitState.rest (s : WaitState) : ℕ := s.phase.rank + s.wakes + 2 * s.inFlight

def KernelAnswer.idle : KernelAnswer → Bool
  | .proceeds => false
  | .zero => true
  | .fails code => pollWasInterrupted code

section
variable (call : WaitCall)

/-- The step is one of the waiting thread, and one that `poll` puts off. -/
def WaitState.putOff (s : WaitState) : WaitStep → Bool
  | .proceed answer =>
    (s.proceed call answer).isSome && (match s.phase with | .polling _ => answer.idle | _ => false)
  | _ => false

/-- The step is one of the waiting thread, and one that takes it further. -/
def WaitState.advances (s : WaitState) (move : WaitStep) : Bool :=
  match move with
  | .proceed answer => (s.proceed call answer).isSome && !s.putOff call move
  | _ => false

/-- How many steps of a run `poll` puts off. -/
def idles (s : WaitState) : List WaitStep → ℕ
  | [] => 0
  | move :: steps => (if s.putOff call move then 1 else 0) + idles (s.step call move) steps

/-- How many steps of a run take the waiting thread further. -/
def advances (s : WaitState) : List WaitStep → ℕ
  | [] => 0
  | move :: steps => (if s.advances call move then 1 else 0) + advances (s.step call move) steps

end

section
variable {call : WaitCall} {s t : WaitState}

/-- Sending and the delivery of it take nothing from a stopped wait, or something. -/
theorem rest_others (call : WaitCall) (hdone : s.requester = .done) (move : WaitStep)
    (hmove : ∀ answer, move ≠ .proceed answer) :
    (s.step call move).requester = .done ∧ (s.step call move).rest ≤ s.rest := by
  have hstop : s.stopRequested = true := stopRequested_iff.mpr (by rw [hdone]; decide)
  unfold step
  cases move with
  | requestStop =>
    dsimp only
    rw [if_neg (by simp [hstop])]
    exact ⟨hdone,le_rfl⟩
  | notify =>
    dsimp only
    rw [if_neg (by rw [hdone]; decide)]
    exact ⟨hdone,le_rfl⟩
  | deliver =>
    dsimp only
    split
    · refine ⟨hdone,?_⟩
      unfold rest
      dsimp only
      split <;> omega
    · exact ⟨hdone,le_rfl⟩
  | tick now =>
    dsimp only
    split <;> exact ⟨hdone,le_rfl⟩
  | socketChanges state => exact ⟨hdone,le_rfl⟩
  | wakeChanges state => exact ⟨hdone,le_rfl⟩
  | proceed answer => exact absurd rfl (hmove answer)

theorem rest_finish (hcancellable : call.cancellable = true) (result : Except NetworkError SocketWaitStatus) :
    (s.finish call result).rest = 1 + s.wakes + 2 * s.inFlight := by
  unfold rest WaitState.finish
  rw [if_pos hcancellable]
  rfl

/-- Outside `poll` a step of a stopped wait takes it nearer to its end. -/
theorem rest_drops (h : WaitInvariant call s) (hdone : s.requester = .done) {answer : KernelAnswer}
    (hfree : ∀ timeout, s.phase ≠ .polling timeout) (ht : s.proceed call answer = some t) :
    t.requester = .done ∧ t.rest < s.rest := by
  have hstop : s.stopRequested = true := stopRequested_iff.mpr (by rw [hdone]; decide)
  have hcancellable := h.stopped hstop
  unfold WaitState.proceed at ht
  cases hphase : s.phase with
  | checkingStop =>
    rw [hphase] at ht
    dsimp only at ht
    rw [if_pos hstop] at ht
    obtain rfl := Option.some.inj ht
    exact ⟨hdone,by simp [rest,hphase,WaitPhase.rank]⟩
  | checkingDeadline =>
    rw [hphase] at ht
    dsimp only at ht
    rw [if_pos hcancellable] at ht
    obtain rfl := Option.some.inj ht
    split
    · exact ⟨hdone,by simp [rest,hphase,WaitPhase.rank]⟩
    · exact ⟨hdone,by simp [rest,hphase,WaitPhase.rank]⟩
  | initializing =>
    rw [hphase] at ht
    dsimp only at ht
    split at ht
    · obtain rfl := Option.some.inj ht
      exact ⟨hdone,by simp [rest,hphase,WaitPhase.rank]⟩
    split at ht
    · obtain rfl := Option.some.inj ht
      exact ⟨hdone,by simp [rest,hphase,WaitPhase.rank]⟩
    · obtain rfl := Option.some.inj ht
      exact ⟨hdone,by simp [rest,hphase,WaitPhase.rank]⟩
  | arming =>
    rw [hphase] at ht
    obtain rfl := Option.some.inj ht
    unfold arm
    rw [if_pos hstop]
    refine ⟨hdone,?_⟩
    simp only [rest,hphase,WaitPhase.rank,WaitState.enterPoll]
    omega
  | elapsed =>
    rw [hphase] at ht
    obtain rfl := Option.some.inj ht
    split
    · exact ⟨hdone,by simp [rest,hphase,WaitPhase.rank,WaitState.enterPoll]⟩
    · exact ⟨hdone,by simp [rest,hphase,WaitPhase.rank]⟩
  | polling timeout => exact absurd hphase (hfree timeout)
  | draining wake operation =>
    rw [hphase] at ht
    dsimp only at ht
    split at ht
    · split at ht
      · obtain rfl := Option.some.inj ht
        refine ⟨hdone,?_⟩
        simp only [rest,hphase]
        omega
      · obtain rfl := Option.some.inj ht
        exact ⟨hdone,by simp [rest,hphase,WaitPhase.rank]⟩
    · obtain rfl := Option.some.inj ht
      exact ⟨hdone,by simp [rest,hphase,WaitPhase.rank]⟩
  | expired =>
    rw [hphase] at ht
    obtain rfl := Option.some.inj ht
    refine ⟨hdone,?_⟩
    rw [rest_finish hcancellable]
    simp [rest,hphase,WaitPhase.rank]
  | inspecting wake operation =>
    rw [hphase] at ht
    obtain rfl := Option.some.inj ht
    unfold inspectWake
    dsimp only
    rw [if_pos hstop]
    refine ⟨hdone,?_⟩
    rw [rest_finish hcancellable]
    simp [rest,hphase,WaitPhase.rank]
  | leaving result =>
    rw [hphase] at ht
    dsimp only at ht
    split at ht
    · cases ht
    · obtain rfl := Option.some.inj ht
      exact ⟨hdone,by simp [rest,hphase,WaitPhase.rank]⟩
  | returned result =>
    rw [hphase] at ht
    cases ht

/-- So does an event of `poll`, or a failure; what puts the wait off costs it one call at most. -/
theorem rest_polling (h : WaitInvariant call s) (hdone : s.requester = .done) {answer : KernelAnswer} {timeout : ℤ}
    (hphase : s.phase = .polling timeout) (ht : s.proceed call answer = some t) :
    t.requester = .done ∧ if answer.idle then t.rest ≤ s.rest + 1 else t.rest < s.rest := by
  have hstop : s.stopRequested = true := stopRequested_iff.mpr (by rw [hdone]; decide)
  have hcancellable := h.stopped hstop
  unfold WaitState.proceed at ht
  rw [hphase] at ht
  cases answer with
  | proceeds =>
    dsimp only at ht
    split at ht
    · cases ht
    obtain rfl := Option.some.inj ht
    unfold reportEvents
    rw [if_pos hcancellable]
    dsimp only
    split
    · exact ⟨hdone,by simp [rest,hphase,WaitPhase.rank,KernelAnswer.idle]⟩
    · exact ⟨hdone,by simp [rest,hphase,WaitPhase.rank,KernelAnswer.idle]⟩
  | zero =>
    dsimp only at ht
    split at ht
    · cases ht
    obtain rfl := Option.some.inj ht
    refine ⟨hdone,?_⟩
    simp only [rest,hphase,WaitPhase.rank,KernelAnswer.idle,if_true]
    omega
  | fails code =>
    dsimp only at ht
    split at ht
    · rename_i hinterrupted
      obtain rfl := Option.some.inj ht
      refine ⟨hdone,?_⟩
      rw [KernelAnswer.idle,if_pos hinterrupted]
      simp [rest,hphase,WaitPhase.rank,WaitState.enterPoll]
    · rename_i hfailed
      obtain rfl := Option.some.inj ht
      refine ⟨hdone,?_⟩
      rw [KernelAnswer.idle,if_neg hfailed,rest_finish hcancellable]
      simp [rest,hphase,WaitPhase.rank]

theorem rest_proceed (h : WaitInvariant call s) (hdone : s.requester = .done) {answer : KernelAnswer}
    (ht : s.proceed call answer = some t) : t.requester = .done ∧
      (if s.advances call (.proceed answer) then 1 else 0) + t.rest ≤
        s.rest + if s.putOff call (.proceed answer) then 1 else 0 := by
  have hsome : (s.proceed call answer).isSome = true := by rw [ht]; rfl
  unfold WaitState.advances putOff
  simp only [hsome,Bool.true_and]
  by_cases hpolling : ∃ timeout, s.phase = .polling timeout
  · obtain ⟨timeout,hphase⟩ := hpolling
    obtain ⟨hkept,hrest⟩ := rest_polling h hdone hphase ht
    refine ⟨hkept,?_⟩
    rw [hphase]
    cases hidle : answer.idle with
    | false =>
      rw [hidle,if_neg Bool.false_ne_true] at hrest
      simp only [Bool.not_false,if_true,Bool.false_eq_true,if_false]
      omega
    | true =>
      rw [hidle,if_pos rfl] at hrest
      simp only [Bool.not_true,if_true,Bool.false_eq_true,if_false]
      omega
  · have hfree (timeout : ℤ) : s.phase ≠ .polling timeout := fun hphase => hpolling ⟨timeout,hphase⟩
    obtain ⟨hkept,hrest⟩ := rest_drops h hdone hfree ht
    refine ⟨hkept,?_⟩
    have hmoved : (match s.phase with | .polling _ => answer.idle | _ => false) = false := by
      split
      · rename_i hphase
        exact absurd hphase (hfree _)
      · rfl
    rw [hmoved]
    simp only [Bool.not_false,if_true,Bool.false_eq_true,if_false]
    omega

theorem rest_step (h : WaitInvariant call s) (hdone : s.requester = .done) (move : WaitStep) :
    (s.step call move).requester = .done ∧
      (if s.advances call move then 1 else 0) + (s.step call move).rest ≤
        s.rest + if s.putOff call move then 1 else 0 := by
  by_cases hmove : ∃ answer, move = .proceed answer
  · obtain ⟨answer,rfl⟩ := hmove
    cases ht : s.proceed call answer with
    | none => simp [step,WaitState.advances,ht,hdone]
    | some t =>
      have hstep : s.step call (.proceed answer) = t := by simp [step,ht]
      rw [hstep]
      exact rest_proceed h hdone ht
  · have hfree (answer : KernelAnswer) : move ≠ .proceed answer := fun heq => hmove ⟨answer,heq⟩
    obtain ⟨hkept,hrest⟩ := rest_others call hdone move hfree
    refine ⟨hkept,?_⟩
    have hstill : s.advances call move = false := by
      unfold WaitState.advances
      split
      · exact absurd rfl (hfree _)
      · rfl
    rw [hstill,if_neg Bool.false_ne_true]
    omega

/-- A stopped wait makes no more calls than are left to it, but for those that `poll` puts off. -/
theorem rest_run (h : WaitInvariant call s) (hdone : s.requester = .done) (steps : List WaitStep) :
    advances call s steps + (s.run call steps).rest ≤ s.rest + idles call s steps := by
  unfold WaitState.run
  induction steps generalizing s with
  | nil => simp [Network.advances,idles]
  | cons move steps ih =>
    obtain ⟨hkept,hrest⟩ := rest_step h hdone move
    have hlater := ih (step_invariant h move) hkept
    rw [Network.advances,idles,List.foldl_cons]
    omega

/-- The reader is readable while a datagram is in its socket. -/
theorem wakeEvents_ne (hcancellable : call.cancellable = true) (hwakes : 0 < s.wakes) : s.wakeEvents call ≠ 0 := by
  intro hnone
  have hbit := congrArg (fun events : PollEvents => events.getLsbD 0) hnone
  rw [wakeEvents,if_pos hcancellable,if_pos hwakes] at hbit
  simp [SocketPollEntry.reported,SocketPollEntry.requestedNativeEvents,wakeEntry,nativeReadableEvent] at hbit

/-- Nothing holds a stopped wait once the datagram has arrived. -/
theorem stopped_proceeds (h : WaitInvariant call s) (hdone : s.requester = .done) (harrived : s.inFlight = 0) :
    (∃ result, s.phase = .returned result) ∨ (s.proceed call .proceeds).isSome = true := by
  have hstop : s.stopRequested = true := stopRequested_iff.mpr (by rw [hdone]; decide)
  unfold WaitState.proceed
  cases hphase : s.phase with
  | polling timeout =>
    have hwoken := h.woken hdone (by rw [hphase]; rfl)
    rw [harrived,Nat.zero_add] at hwoken
    right
    dsimp only
    rw [if_neg fun hsilent => wakeEvents_ne (h.stopped hstop) hwoken hsilent.2]
    rfl
  | initializing =>
    right
    dsimp only
    split <;> rfl
  | draining wake operation =>
    right
    dsimp only
    split <;> rfl
  | leaving result =>
    right
    dsimp only
    rw [if_neg (by rw [hdone]; decide)]
    rfl
  | returned result => exact .inl ⟨result,rfl⟩
  | _ => exact .inr rfl

end

/-- Whatever the order of the steps: a result tells the truth; the stop callback runs only inside the wait; a stop
that has been requested while the wait watches is what the wait ends with, unless `poll` fails, whose error it then
is; and once its datagram has arrived, nothing but timeouts and interruptions of `poll` keeps the wait from
returning. -/
theorem stop_not_slept_through {call : WaitCall} {start : WaitState} (hfresh : Fresh call start)
    (steps : List WaitStep) :
    let s := start.run call steps
    (∀ result, s.phase.result = some result → Justified call s result) ∧
    (s.requester = .notifying → s.registered = true ∧ s.phase.armed = true) ∧
    (s.requester = .done → s.inFlight = 0 →
      (∃ result, s.phase = .returned result) ∨ (s.proceed call .proceeds).isSome = true) ∧
    ∀ more,
      (s.stopRequested = true → s.phase.watches = true →
        ∀ result, (s.run call more).phase.result = some result → Yielded (pollFailures call s more) result) ∧
      (s.requester = .done → advances call s more + (s.run call more).rest ≤ s.rest + idles call s more) := by
  intro s
  have h : WaitInvariant call s := run_invariant (fresh_invariant hfresh) steps
  refine ⟨h.justified,?_,stopped_proceeds h,?_⟩
  · intro hnotifying
    exact ⟨h.callback hnotifying,h.inside (h.callback hnotifying)⟩
  · intro more
    refine ⟨?_,fun hdone => rest_run h hdone more⟩
    intro hstop hwatches result hresult
    have hyields : Yields (pollFailures call s more) (s.run call more) :=
      @Yields.run call s [] h ⟨hstop,.inl hwatches⟩ more
    rcases hyields.2 with hwatching | ⟨other,hother,hyielded⟩
    · rw [WaitPhase.watches_result hwatching] at hresult
      cases hresult
    · rw [hresult] at hother
      obtain rfl := Option.some.inj hother
      exact hyielded

def acceptWait : WaitCall := ⟨.accept,.readable,none,true,1,Nat.one_pos⟩

/-- The wait goes to sleep, and a stop is requested. -/
def stoppedSleep : List WaitStep := List.replicate 4 (.proceed .proceeds) ++ [.requestStop,.notify,.deliver]

theorem stop_not_slept_through_accept :
    ((({} : WaitState).run acceptWait stoppedSleep).proceed acceptWait .proceeds).isSome = true := by
  have hfresh : Fresh acceptWait {} := ⟨rfl,rfl,by decide,by decide⟩
  rcases (stop_not_slept_through hfresh stoppedSleep).2.2.1 rfl rfl with ⟨result,hresult⟩ | hsome
  · cases hresult
  · exact hsome

end SpareNode.Network
