import SpareNode.Library.WeakFairness
import SpareNode.Storage.SlotAccounting

/-! # Capacity comes back

A ticket goes from its caller to the pending operation, waits there until the worker has released
the one before, and is released by the worker once the operation has ended. Its stage counts the
steps that are left, and never rises.
-/
namespace SpareNode.Storage
open Concurrency

/-- How far the worker thread is from taking over the ticket of the pending operation. -/
def WorkerThread.distance : WorkerThread → ℕ
  | .ended _ _ => 2
  | .running _ _ _ _ _ => 3
  | .waiting => 4
  | .releasing _ => 5
  | .exited => 0

/-- How far a ticket of the worker is from its release. -/
def FileWorker.stage (worker : FileWorker) (ticket : ℕ) : ℕ :=
  if worker.thread.ticket = some ticket then 1
  else if worker.state.ticket = some ticket then worker.thread.distance
  else 0

def Writer.stage (w : Writer) (ticket : ℕ) : ℕ :=
  if w.caller.ticket = some ticket then 6 else w.worker.elim 0 fun worker => worker.stage ticket

theorem WorkerThread.distance_le (thread : WorkerThread) : thread.distance ≤ 5 := by
  cases thread <;> simp [distance]

namespace FileWorker
variable {x y : FileWorker} {ticket : ℕ}

theorem stage_le (worker : FileWorker) (ticket : ℕ) : worker.stage ticket ≤ 5 := by
  unfold stage
  split
  · decide
  · split
    · exact worker.thread.distance_le
    · decide

/-- The stages of a worker that has taken no ticket over. -/
theorem stage_of_none (h : x.thread.ticket = none) :
    x.stage ticket = if x.state.ticket = some ticket then x.thread.distance else 0 := by
  rw [stage,h,if_neg (by simp)]

theorem stage_of_some (h : x.thread.ticket = some ticket) : x.stage ticket = 1 := if_pos h

theorem stage_cases (hpos : 0 < x.stage ticket) :
    (x.thread.ticket = some ticket ∧ x.stage ticket = 1) ∨
    (x.thread.ticket ≠ some ticket ∧ x.state.ticket = some ticket ∧ x.stage ticket = x.thread.distance) := by
  by_cases hthread : x.thread.ticket = some ticket
  · exact .inl ⟨hthread,if_pos hthread⟩
  · have hstage : x.stage ticket = if x.state.ticket = some ticket then x.thread.distance else 0 :=
      if_neg hthread
    split at hstage
    · rename_i hqueued
      exact .inr ⟨hthread,hqueued,hstage⟩
    · exact absurd hstage hpos.ne'

/-- The thread goes on with the operation that it has. -/
theorem stage_le_stage (hx : x.thread.ticket = none) (hy : y.thread.ticket = none)
    (hqueue : y.state.ticket = x.state.ticket) (hthread : y.thread.distance ≤ x.thread.distance) :
    y.stage ticket ≤ x.stage ticket := by
  rw [stage_of_none hx,stage_of_none hy,hqueue]
  split
  · exact hthread
  · exact le_rfl

end FileWorker

namespace Writer
variable {slots slots' : FileWorkerSlots} {w w' : Writer} {ticket : ℕ}

theorem stage_some {worker : FileWorker} (hcaller : w.caller.ticket ≠ some ticket)
    (hworker : w.worker = some worker) : w.stage ticket = worker.stage ticket := by
  rw [stage,if_neg hcaller,hworker]
  rfl

theorem stage_none (hcaller : w.caller.ticket ≠ some ticket) (hworker : w.worker = none) :
    w.stage ticket = 0 := by
  rw [stage,if_neg hcaller,hworker]
  rfl

/-- A ticket is at a stage exactly as long as the writer has it. -/
theorem stage_pos (h : w.Coherent) : 0 < w.stage ticket ↔ ∃ p, w.holding p = some ticket := by
  by_cases hcaller : w.caller.ticket = some ticket
  · rw [stage,if_pos hcaller]
    exact ⟨fun _ => ⟨.caller,hcaller⟩,fun _ => by decide⟩
  · cases hworker : w.worker with
    | none =>
      rw [stage_none hcaller hworker]
      refine ⟨fun hpos => absurd hpos (lt_irrefl 0),?_⟩
      rintro ⟨p,hp⟩
      cases p with
      | caller => exact absurd hp hcaller
      | queue => exact absurd ((holding_none hworker).1.symm.trans hp) (by simp)
      | worker => exact absurd ((holding_none hworker).2.symm.trans hp) (by simp)
    | some worker =>
      rw [stage_some hcaller hworker,FileWorker.stage]
      obtain ⟨hqueue,hthread⟩ := holding_some hworker
      by_cases hreleasing : worker.thread.ticket = some ticket
      · rw [if_pos hreleasing]
        exact ⟨fun _ => ⟨.worker,hthread.trans hreleasing⟩,fun _ => by decide⟩
      · rw [if_neg hreleasing]
        by_cases hqueued : worker.state.ticket = some ticket
        · rw [if_pos hqueued]
          refine ⟨fun _ => ⟨.queue,hqueue.trans hqueued⟩,?_⟩
          intro _
          cases hcase : worker.thread with
          | exited =>
            have hpending := (h.worker worker hworker).ticket
            rw [hqueued,((h.worker worker hworker).exited hcase).1] at hpending
            exact absurd hpending (by simp)
          | _ => simp [WorkerThread.distance]
        · rw [if_neg hqueued]
          refine ⟨fun hpos => absurd hpos (lt_irrefl 0),?_⟩
          rintro ⟨p,hp⟩
          cases p with
          | caller => exact absurd hp hcaller
          | queue => exact absurd (hqueue.symm.trans hp) hqueued
          | worker => exact absurd (hthread.symm.trans hp) hreleasing

/-- The stage does not rise when the worker's does not and the caller gets no ticket. -/
theorem stage_le_of (hcaller : w'.caller.ticket = some ticket → w.caller.ticket = some ticket)
    (hworker : (w'.worker.elim 0 fun worker => worker.stage ticket) ≤
      w.worker.elim 0 fun worker => worker.stage ticket) : w'.stage ticket ≤ w.stage ticket := by
  by_cases hold : w.caller.ticket = some ticket
  · have htop : w.stage ticket = 6 := if_pos hold
    rw [htop,stage]
    split
    · exact le_rfl
    · cases w'.worker with
      | none => exact Nat.zero_le _
      | some worker => exact (worker.stage_le ticket).trans (by decide)
  · rw [stage,stage,if_neg hold,if_neg fun h => hold (hcaller h)]
    exact hworker

theorem worker_stage {worker : FileWorker} (h : w.worker = some worker) :
    (w.worker.elim 0 fun worker => worker.stage ticket) = worker.stage ticket := by
  rw [h]
  rfl

/-- No move takes a ticket back to an earlier stage. -/
theorem Moved.stage_le (hmoved : Moved slots w slots' w')
    (hknown : ticket < slots.tickets.length)
    (hsingle : w.holding .worker = some ticket → w.holding .queue ≠ some ticket) :
    w'.stage ticket ≤ w.stage ticket := by
  cases hmoved with
  | failed e free => exact stage_le_of (fun hnew => by cases hnew) le_rfl
  | directFailed file e idle alone => exact stage_le_of (fun hnew => by cases hnew) le_rfl
  | directWrote idle alone open_ wrote => exact stage_le_of (fun hnew => by cases hnew) le_rfl
  | directCompleted idle alone open_ done => exact stage_le_of (fun hnew => by cases hnew) le_rfl
  | begun call options idle open_ isolated =>
    refine stage_le_of (fun hnew => by cases hnew) ?_
    rcases isolated with hsome | ⟨hnone,rfl⟩
    · exact (worker_stage hsome).ge
    · exact Nat.zero_le _
  | @acquired call offset fresh options moment slots' caller got =>
    refine stage_le_of ?_ le_rfl
    intro hnew
    rcases FileWorkerSlots.acquire_cases got with ⟨e,hfailed,-⟩ | ⟨hfresh,-⟩
    · exact absurd hfailed (by simp)
    · obtain rfl := Except.ok.inj hfresh
      obtain rfl := Option.some.inj hnew
      exact absurd hknown (lt_irrefl _)
  | rejected caller isolated =>
    exact stage_le_of (fun hnew => by cases hnew) (worker_stage isolated).ge
  | @queued call offset queued options worker caller isolated free running =>
    by_cases hself : queued = ticket
    · subst hself
      have htop : w.stage queued = 6 := if_pos (by rw [caller]; rfl)
      rw [htop,stage_some (by simp [Caller.ticket]) rfl]
      exact (FileWorker.stage_le _ _).trans (by decide)
    · refine stage_le_of (fun hnew => by cases hnew) ?_
      rw [worker_stage isolated]
      change FileWorker.stage (worker.queue queued _ _ _) ticket ≤ _
      rw [FileWorker.stage,FileWorker.stage]
      change (if worker.thread.ticket = some ticket then 1 else if some queued = some ticket then _ else 0) ≤ _
      rw [if_neg (fun h => hself (Option.some.inj h))]
      split
      · exact le_rfl
      · exact Nat.zero_le _
  | advanced caller isolated finished succeeded more => exact stage_le_of (fun hnew => by cases hnew) le_rfl
  | wrote caller isolated finished succeeded all => exact stage_le_of (fun hnew => by cases hnew) le_rfl
  | finishing caller isolated finished succeeded =>
    exact stage_le_of (fun hnew => by cases hnew) (worker_stage isolated).ge
  | joined caller isolated => exact stage_le_of (fun hnew => by cases hnew) (Nat.zero_le _)
  | destroyed idle alone => exact stage_le_of (fun hnew => by cases hnew) le_rfl
  | abandoned idle isolated => exact stage_le_of (fun hnew => by cases hnew) (worker_stage isolated).ge
  | orphaned caller => exact stage_le_of (fun hnew => by cases hnew) le_rfl
  | left caller => exact stage_le_of (fun hnew => by cases hnew) le_rfl
  | woke isolated queued =>
    refine stage_le_of id ?_
    rw [worker_stage isolated]
    exact FileWorker.stage_le_stage rfl rfl rfl (by simp [WorkerThread.distance])
  | exited isolated free stopped =>
    refine stage_le_of id ?_
    rw [worker_stage isolated]
    exact FileWorker.stage_le_stage rfl rfl rfl (by simp [WorkerThread.distance])
  | ran isolated moved => exact stage_le_of id (worker_stage isolated).ge
  | ended isolated outcome =>
    refine stage_le_of id ?_
    rw [worker_stage isolated]
    exact FileWorker.stage_le_stage rfl rfl rfl (by simp [WorkerThread.distance])
  | @published state sequence result isolated =>
    refine stage_le_of id ?_
    rw [worker_stage isolated,FileWorker.stage_of_none rfl]
    change (if state.ticket = some ticket then 1 else 0) ≤ if state.ticket = some ticket then 2 else 0
    split <;> decide
  | @settled state released isolated =>
    refine stage_le_of id ?_
    obtain ⟨hqueue,hthread⟩ := holding_some isolated
    rw [hqueue,hthread] at hsingle
    rw [worker_stage isolated]
    change FileWorker.stage ⟨state,.waiting⟩ ticket ≤ _
    rw [FileWorker.stage_of_none rfl,FileWorker.stage]
    by_cases hself : WorkerThread.ticket (.releasing (some released)) = some ticket
    · rw [if_neg (hsingle hself)]
      exact Nat.zero_le _
    · rw [if_neg hself]
      change (if state.ticket = some ticket then 4 else 0) ≤ if state.ticket = some ticket then 5 else 0
      split <;> decide
  | rested isolated =>
    refine stage_le_of id ?_
    rw [worker_stage isolated]
    exact FileWorker.stage_le_stage rfl rfl rfl (by simp [WorkerThread.distance])

/-- The step that a ticket waits for at a stage; a native operation takes steps of its own. -/
def stageAction : ℕ → WriterStep
  | 6 => .enqueue
  | 4 => .wake
  | 2 => .publish
  | _ => .settle

/-- The step that a ticket waits for is possible, and takes it to a later stage. -/
theorem stage_lowered (h : w.Coherent) (hpos : 0 < w.stage ticket) (hended : w.stage ticket ≠ 3)
    (hsingle : w.holding .worker = some ticket → w.holding .queue ≠ some ticket) :
    ∃ slots' w', w.step slots (stageAction (w.stage ticket)) = some (slots',w') ∧
      w'.stage ticket < w.stage ticket := by
  by_cases hcaller : w.caller.ticket = some ticket
  · have htop : w.stage ticket = 6 := if_pos hcaller
    have hlow {v : Writer} (hv : v.caller.ticket = none) : v.stage ticket < 6 := by
      rw [stage,hv,if_neg (by simp)]
      cases v.worker with
      | none => exact Nat.zero_lt_succ _
      | some worker => exact Nat.lt_succ_of_le (worker.stage_le ticket)
    rw [htop]
    cases hcase : w.caller with
    | acquired held call offset options =>
      have hserved := h.caller
      rw [CallerCoherent,hcase] at hserved
      obtain ⟨worker,hworker,-⟩ := hserved
      rcases worker.enqueue_cases slots held (operation call) (piece offset call) options with
        hrejected | ⟨-,-,hqueued⟩
      · have hstep : w.step slots .enqueue = some (slots.release held .caller,
            { w with worker := some worker }.return_ call (.error ⟨.invalidState,0⟩)) := by
          simp only [step,hcase,hworker,hrejected]
        exact ⟨_,_,hstep,hlow rfl⟩
      · have hstep : w.step slots .enqueue = some (slots,{ w with
            worker := some (worker.queue held (operation call) (piece offset call) options)
            caller := .awaiting (worker.state.sequence + 1) call offset options }) := by
          simp only [step,hcase,hworker,hqueued]
        exact ⟨_,_,hstep,hlow rfl⟩
    | _ =>
      rw [hcase] at hcaller
      cases hcaller
  · cases hworker : w.worker with
    | none =>
      rw [stage_none hcaller hworker] at hpos
      exact absurd hpos (lt_irrefl 0)
    | some worker =>
      obtain ⟨state,thread⟩ := worker
      obtain ⟨hqueue,hthread⟩ := holding_some hworker
      rw [hqueue,hthread] at hsingle
      have hstage := stage_some hcaller hworker
      have hlater {slots' : FileWorkerSlots} {worker : FileWorker} {action : WriterStep}
          (hstep : w.step slots action = some (slots',{ w with worker := some worker }))
          (hlt : worker.stage ticket < w.stage ticket) :
          ∃ slots' w', w.step slots action = some (slots',w') ∧ w'.stage ticket < w.stage ticket :=
        ⟨_,_,hstep,(stage_some (w := { w with worker := some worker }) hcaller rfl).trans_lt hlt⟩
      rw [hstage] at hpos hended ⊢
      rw [hstage] at hlater
      rcases FileWorker.stage_cases hpos with ⟨htaken,hone⟩ | ⟨hfree,hqueued,hdistance⟩
      · rw [hone] at hlater ⊢
        cases thread with
        | releasing released =>
          obtain rfl : released = some ticket := htaken
          have hstep : w.step slots .settle = some (slots.release ticket .worker,
              { w with worker := some ⟨state,.waiting⟩ }) := by
            simp only [step,hworker,FileWorker.settle,Option.map_some]
          apply hlater hstep
          rw [FileWorker.stage_of_none rfl,if_neg (hsingle rfl)]
          exact Nat.zero_lt_one
        | _ => cases htaken
      · rw [hdistance] at hended hlater ⊢
        have hpending : state.pending = true := by
          rw [← (h.worker _ hworker).ticket,hqueued]
          rfl
        have hidle {thread : WorkerThread} (hnone : thread.ticket = none) :
            (FileWorker.mk state thread).stage ticket = thread.distance := by
          rw [FileWorker.stage_of_none hnone,if_pos hqueued]
        cases thread with
        | waiting =>
          have hstep : w.step slots .wake = some (slots,{ w with
              worker := some ⟨state,.running state.operation state.bytes state.options state.sequence 0⟩ }) := by
            simp only [step,hworker,FileWorker.wake,hpending,if_true,Option.map_some]
          apply hlater hstep
          rw [hidle rfl]
          simp [WorkerThread.distance]
        | running operation bytes options sequence offset => exact absurd rfl hended
        | ended sequence result =>
          have hstep : w.step slots .publish = some (slots,{ w with
              worker := some
                ⟨{ state with result := some result, completed := sequence, pending := false, ticket := none },
                  .releasing state.ticket⟩ }) := by
            simp only [step,hworker,FileWorker.publish,Option.map_some]
          apply hlater hstep
          have hone := FileWorker.stage_of_some (x := ⟨{ state with
            result := some result, completed := sequence, pending := false, ticket := none },
              .releasing state.ticket⟩) hqueued
          rw [hone]
          simp [WorkerThread.distance]
        | releasing released =>
          obtain ⟨slots',hsettle⟩ : ∃ slots', FileWorker.settle ⟨state,.releasing released⟩ slots =
              some (⟨state,.waiting⟩,slots') := ⟨_,rfl⟩
          have hstep : w.step slots .settle = some (slots',{ w with worker := some ⟨state,.waiting⟩ }) := by
            simp only [step,hworker,hsettle,Option.map_some]
          apply hlater hstep
          rw [hidle rfl]
          simp [WorkerThread.distance]
        | exited =>
          have hexited := ((h.worker _ hworker).exited rfl).1
          exact absurd (hexited.symm.trans hpending) (by decide)

def Running (w : Writer) : Prop :=
  ∃ state operation bytes options sequence offset,
    w.worker = some ⟨state,.running operation bytes options sequence offset⟩

theorem running_of_stage (hstage : w.stage ticket = 3) : w.Running := by
  by_cases hcaller : w.caller.ticket = some ticket
  · have htop : w.stage ticket = 6 := if_pos hcaller
    exact absurd (htop.symm.trans hstage) (by decide)
  · cases hworker : w.worker with
    | none => exact absurd ((stage_none hcaller hworker).symm.trans hstage) (by decide)
    | some worker =>
      obtain ⟨state,thread⟩ := worker
      have hthree : FileWorker.stage ⟨state,thread⟩ ticket = 3 :=
        (stage_some hcaller hworker).symm.trans hstage
      rcases FileWorker.stage_cases (lt_of_lt_of_eq (Nat.succ_pos 2) hthree.symm) with ⟨-,hone⟩ | ⟨-,-,hdistance⟩
      · exact absurd (hone.symm.trans hthree) (by decide)
      · have hthread : thread.distance = 3 := hdistance.symm.trans hthree
        cases thread with
        | running operation bytes options sequence offset => exact ⟨_,_,_,_,_,_,hworker⟩
        | _ => simp [WorkerThread.distance] at hthread

end Writer

theorem TicketMove.length_le {slots slots' : FileWorkerSlots} {f g : TicketPlace → Option ℕ}
    (h : TicketMove slots f slots' g) : slots.tickets.length ≤ slots'.tickets.length := by
  cases h with
  | kept => exact le_rfl
  | acquired empty room => simp
  | passed full empty => exact le_rfl
  | released releaser full by_ =>
    unfold FileWorkerSlots.release
    dsimp only
    split
    · exact le_rfl
    · split
      · simp
      · exact le_rfl
  | orphaned ticket =>
    unfold FileWorkerSlots.orphan
    split
    · exact le_rfl
    · split
      · simp
      · exact le_rfl

namespace WriterSystem
variable {ι : Type} [DecidableEq ι] {s s' : WriterSystem ι} {schedule : ℕ → ι × WriterStep} {ticket : ℕ}

/-- The state after the first moves of a schedule. -/
def scheduled (schedule : ℕ → ι × WriterStep) (n : ℕ) : WriterSystem ι :=
  after ((List.range n).map schedule)

theorem scheduled_succ (schedule : ℕ → ι × WriterStep) (n : ℕ) :
    scheduled schedule (n + 1) =
      ((scheduled schedule n).step (schedule n).1 (schedule n).2).getD (scheduled schedule n) := by
  rw [scheduled,List.range_succ,List.map_append,after,List.foldl_append]
  rfl

/-- A thread that can go on does so in the end, and every native operation ends. -/
structure Fair (schedule : ℕ → ι × WriterStep) : Prop where
  threads : ∀ i, ∀ action ∈ [WriterStep.enqueue,.wake,.publish,.settle],
    WeaklyFair (fun n => ((scheduled schedule n).step i action).isSome = true) fun n => schedule n = (i,action)
  native : ∀ i n, ∃ m, n ≤ m ∧ ¬((scheduled schedule m).writers i).Running

/-- A step of the system takes no ticket back, and forgets none. -/
theorem Accounted.step_stage (h : s.Accounted) {j : ι} {action : WriterStep}
    (hstep : s.step j action = some s') (hknown : ticket < s.slots.tickets.length) (i : ι) :
    (s'.writers i).stage ticket ≤ (s.writers i).stage ticket ∧ ticket < s'.slots.tickets.length := by
  obtain ⟨slots,w,hwriter,rfl⟩ := step_some hstep
  have hmoved := Writer.step_moved hwriter
  refine ⟨?_,hknown.trans_le (hmoved.tickets (h.coherent j)).length_le⟩
  dsimp only
  by_cases hij : i = j
  · subst hij
    rw [Function.update_self]
    apply hmoved.stage_le hknown
    intro hworker hqueue
    exact absurd (h.held.unique (i,.worker) (i,.queue) ticket hworker hqueue) (by simp)
  · rw [Function.update_of_ne hij]

theorem scheduled_stage (n : ℕ) (hknown : ticket < (scheduled schedule n).slots.tickets.length) (i : ι) :
    ((scheduled schedule (n + 1)).writers i).stage ticket ≤
        ((scheduled schedule n).writers i).stage ticket ∧
      ticket < (scheduled schedule (n + 1)).slots.tickets.length := by
  rw [scheduled_succ]
  cases hstep : (scheduled schedule n).step (schedule n).1 (schedule n).2 with
  | none => exact ⟨le_rfl,hknown⟩
  | some s' => exact (accounted _).step_stage hstep hknown i

theorem scheduled_known {n m : ℕ} (hn : n ≤ m)
    (hknown : ticket < (scheduled schedule n).slots.tickets.length) :
    ticket < (scheduled schedule m).slots.tickets.length := by
  induction m,hn using Nat.le_induction with
  | base => exact hknown
  | succ m hm ih => exact (scheduled_stage m ih (schedule m).1).2

theorem stageAction_mem (k : ℕ) : Writer.stageAction k ∈ [WriterStep.enqueue,.wake,.publish,.settle] := by
  unfold Writer.stageAction
  split <;> simp

/-- Under a fair schedule a ticket does not stay at its stage. -/
theorem Fair.drops (hfair : Fair schedule) {n : ℕ} {i : ι}
    (hknown : ticket < (scheduled schedule n).slots.tickets.length)
    (hpos : 0 < ((scheduled schedule n).writers i).stage ticket) :
    ∃ m, n ≤ m ∧ ((scheduled schedule m).writers i).stage ticket <
      ((scheduled schedule n).writers i).stage ticket := by
  have hstep (m : ℕ) (hm : n ≤ m) := (scheduled_stage m (scheduled_known hm hknown) i).1
  by_cases hrunning : ((scheduled schedule n).writers i).stage ticket = 3
  · obtain ⟨m,hm,hended⟩ := hfair.native i n
    have hle := le_of_step_le (f := fun m => ((scheduled schedule m).writers i).stage ticket) hstep le_rfl hm
    refine ⟨m,hm,lt_of_le_of_ne hle fun hsame => hended ?_⟩
    exact Writer.running_of_stage (hsame.trans hrunning)
  · have hlowered (m : ℕ) (hsame : ((scheduled schedule m).writers i).stage ticket =
        ((scheduled schedule n).writers i).stage ticket) :
        ∃ slots' w', ((scheduled schedule m).writers i).step (scheduled schedule m).slots
            (Writer.stageAction (((scheduled schedule n).writers i).stage ticket)) = some (slots',w') ∧
          w'.stage ticket < ((scheduled schedule m).writers i).stage ticket := by
      have haccounted : (scheduled schedule m).Accounted := accounted _
      rw [← hsame] at hpos hrunning ⊢
      apply Writer.stage_lowered (haccounted.coherent i) hpos hrunning
      intro hworker hqueue
      exact absurd (haccounted.held.unique (i,.worker) (i,.queue) ticket hworker hqueue) (by simp)
    have hthread := hfair.threads i _ (stageAction_mem (((scheduled schedule n).writers i).stage ticket))
    refine hthread.drops (f := fun m => ((scheduled schedule m).writers i).stage ticket) hstep
      ?_
      ?_
    · intro m _ hsame
      obtain ⟨slots',w',hwriter,-⟩ := hlowered m hsame
      rw [step,hwriter]
      rfl
    · intro m _ hsame htaken
      obtain ⟨slots',w',hwriter,hlt⟩ := hlowered m hsame
      rw [scheduled_succ,htaken,step,hwriter]
      simpa using hlt

theorem Fair.released (hfair : Fair schedule) {n : ℕ} (hlive : (scheduled schedule n).slots.Live ticket) :
    ∃ m, n ≤ m ∧ ticket ∈ (scheduled schedule m).slots.releases.map Prod.fst := by
  obtain ⟨t,ht,-⟩ := id hlive
  have hknown := (List.getElem?_eq_some_iff.mp ht).1
  have haccounted (m : ℕ) : (scheduled schedule m).Accounted := accounted _
  obtain ⟨⟨i,p⟩,hplace⟩ := (haccounted n).held.held ticket hlive
  obtain ⟨m,hm,hzero⟩ := reaches_zero (f := fun m => ((scheduled schedule m).writers i).stage ticket)
    fun m (hm : n ≤ m) hpos => hfair.drops (scheduled_known hm hknown) hpos
  refine ⟨m,hm,((haccounted m).counted.released ticket).mpr ?_⟩
  have hmknown := scheduled_known hm hknown
  refine ⟨_,List.getElem?_eq_getElem hmknown,?_⟩
  by_contra hout
  -- a ticket that were still out would be with the writer that had it, which has it no more
  obtain ⟨⟨j,q⟩,hplace'⟩ := (haccounted m).held.held ticket
    ⟨_,List.getElem?_eq_getElem hmknown,Bool.eq_false_iff.mpr hout⟩
  have hpos : 0 < ((scheduled schedule m).writers j).stage ticket :=
    (Writer.stage_pos ((haccounted m).coherent j)).mpr ⟨q,hplace'⟩
  have hbefore : 0 < ((scheduled schedule n).writers j).stage ticket :=
    hpos.trans_le (le_of_step_le (f := fun m => ((scheduled schedule m).writers j).stage ticket)
      (fun k hk => (scheduled_stage k (scheduled_known hk hknown) j).1) le_rfl hm)
  obtain ⟨r,hr⟩ := (Writer.stage_pos ((haccounted n).coherent j)).mp hbefore
  have hsame := (haccounted n).held.unique (i,p) (j,r) ticket hplace hr
  obtain rfl : i = j := congrArg Prod.fst hsame
  exact absurd hzero hpos.ne'

/-- The capacity of the file workers is accounted for. In every interleaving of any writers the
counters are the tickets that are out, within their bounds; every such ticket is in one place; it is
released once, by the caller that is rejected or by the worker that has ended its operation; with no
ticket in any place the slots are all free; and a fair schedule releases every ticket. -/
theorem slots_accounted (ι : Type) [DecidableEq ι] :
    (∀ moves : List (ι × WriterStep),
      let s := after moves
      (0 ≤ s.slots.orphaned ∧ s.slots.orphaned ≤ s.slots.active ∧ s.slots.active ≤ 32) ∧
      s.slots.active = (s.slots.tickets.countP fun t => !t.released : ℕ) ∧
      s.slots.orphaned = (s.slots.tickets.countP fun t => !t.released && t.orphaned : ℕ) ∧
      (s.slots.releases.map Prod.fst).Nodup ∧
      (∀ ticket, ticket ∈ s.slots.releases.map Prod.fst ↔
        ∃ t, s.slots.tickets[ticket]? = some t ∧ t.released = true) ∧
      TokensHeld s.slots.Live s.place ∧
      ((∀ h, s.place h = none) → s.slots.active = 0 ∧ s.slots.orphaned = 0) ∧
      ∀ i action s', s.step i action = some s' → s'.slots.releases = s.slots.releases ∨
        ∃ ticket, s.slots.Live ticket ∧
          (s'.slots.releases = s.slots.releases ++ [(ticket,.caller)] ∧ s.place (i,.caller) = some ticket ∨
            s'.slots.releases = s.slots.releases ++ [(ticket,.worker)] ∧
              s.place (i,.worker) = some ticket)) ∧
    ∀ schedule : ℕ → ι × WriterStep, Fair schedule → ∀ n ticket, (scheduled schedule n).slots.Live ticket →
      ∃ m, n ≤ m ∧ ticket ∈ (scheduled schedule m).slots.releases.map Prod.fst := by
  refine ⟨?_,fun schedule hfair n ticket hlive => hfair.released hlive⟩
  intro moves s
  have h : s.Accounted := accounted moves
  obtain ⟨hnonneg,hle⟩ := h.counted.orphaned_le
  refine ⟨⟨hnonneg,hle,h.counted.bound⟩,h.counted.active,h.counted.orphaned,h.counted.once,h.counted.released,
    h.held,?_,fun i action s' hstep => h.releases hstep⟩
  intro hempty
  have hactive : s.slots.active = 0 := by
    rw [h.counted.active]
    norm_cast
    rw [List.countP_eq_zero]
    intro t ht hout
    obtain ⟨ticket,hticket⟩ := List.mem_iff_getElem?.mp ht
    obtain ⟨place,hplace⟩ := h.held.held ticket ⟨t,hticket,by simpa using hout⟩
    exact absurd ((hempty place).symm.trans hplace) (by simp)
  exact ⟨hactive,by omega⟩

/-- The moves of a completion up to the worker's next wait, and its wake-ups without work from then on. -/
def completionMoves : List WriterStep :=
  [.invoke .complete ⟨true,none⟩ ⟨.ok (),[],finished⟩,.acquire true ⟨false,0⟩,.enqueue,.wake,
    .native (.complete finished),.publish,.settle]
where
  finished : CompletionAnswers := ⟨⟨false,0⟩,none,⟨false,0⟩,none,⟨false,0⟩⟩

def completion (n : ℕ) : Unit × WriterStep := ((),(completionMoves[n]?).getD .wake)

theorem completion_idle {n : ℕ} (h : 7 ≤ n) : scheduled completion n = scheduled completion 7 := by
  induction n,h using Nat.le_induction with
  | base => rfl
  | succ n hn ih =>
    have hwake : completion n = ((),.wake) := by
      rw [completion,List.getElem?_eq_none hn]
      rfl
    rw [scheduled_succ,ih,hwake]
    rfl

theorem completion_fair : Fair completion where
  threads := by
    intro i action haction n henabled
    have hidle := henabled (max n 7) (Nat.le_max_left n 7)
    dsimp only at hidle
    rw [completion_idle (Nat.le_max_right n 7)] at hidle
    simp only [List.mem_cons,List.not_mem_nil,or_false] at haction
    rcases haction with rfl | rfl | rfl | rfl <;> cases hidle
  native := by
    intro i n
    refine ⟨max n 7,Nat.le_max_left n 7,?_⟩
    rw [completion_idle (Nat.le_max_right n 7)]
    rintro ⟨state,operation,bytes,options,sequence,offset,hworker⟩
    cases hworker

/-- The ticket of a completion comes back. -/
theorem slots_accounted_completion : Fair completion ∧ (scheduled completion 2).slots.Live 0 ∧
    ∃ m, 2 ≤ m ∧ 0 ∈ (scheduled completion m).slots.releases.map Prod.fst :=
  ⟨completion_fair,⟨_,rfl,rfl⟩,(slots_accounted Unit).2 completion completion_fair 2 0 ⟨_,rfl,rfl⟩⟩

end WriterSystem
end SpareNode.Storage
