import SpareNode.Storage.WriterSteps

/-! # The hand-over between a caller and its worker

The worker is busy only with the one pending operation, that operation has the ticket, and a caller
waits for no other operation than the last one queued.
-/
namespace SpareNode.Storage
open Concurrency

/-- What a worker knows of its queue: one operation at most is pending, and it has the ticket. -/
structure FileWorker.Coherent (worker : FileWorker) : Prop where
  ticket : worker.state.ticket.isSome = worker.state.pending
  count : worker.state.sequence = worker.state.completed + if worker.state.pending then 1 else 0
  running : ∀ operation bytes options sequence offset,
    worker.thread = .running operation bytes options sequence offset →
      worker.state.pending = true ∧ sequence = worker.state.sequence ∧ bytes = worker.state.bytes ∧
        operation = worker.state.operation
  ended : ∀ sequence result, worker.thread = .ended sequence result →
    worker.state.pending = true ∧ sequence = worker.state.sequence
  releasing : ∀ ticket, worker.thread = .releasing ticket → ticket.isSome = true
  exited : worker.thread = .exited → worker.state.pending = false ∧ worker.state.stopping = true

/-- A worker that has not been told to stop. -/
def Writer.Served (w : Writer) (p : FileWorker → Prop) : Prop :=
  ∃ worker, w.worker = some worker ∧ worker.state.stopping = false ∧ p worker

/-- What each place of the calling thread goes with. -/
def Writer.CallerCoherent (w : Writer) : Prop :=
  match w.caller with
  | .idle => ∀ worker, w.worker = some worker → worker.state.stopping = false
  | .acquiring _ _ _ => w.Served fun _ => True
  | .acquired _ _ _ _ => w.Served fun _ => True
  | .awaiting sequence _ _ _ => w.Served fun worker => sequence = worker.state.sequence
  | .joining => ∃ worker, w.worker = some worker
  | .abandoning _ => True
  | .gone => True

structure Writer.Coherent (w : Writer) : Prop where
  worker : ∀ worker, w.worker = some worker → worker.Coherent
  caller : w.CallerCoherent

theorem FileWorker.Coherent.fresh : ({} : FileWorker).Coherent :=
  ⟨rfl,rfl,by simp,by simp,by simp,by simp⟩

theorem Writer.Coherent.fresh : ({} : Writer).Coherent := ⟨by simp,by simp [CallerCoherent]⟩

namespace Writer
variable {slots slots' : FileWorkerSlots} {w w' : Writer}

/-- A caller without a ticket has not told its worker to stop. -/
theorem CallerCoherent.free {call : WriterCall} (h : w.CallerCoherent) (hfree : w.caller.Free call) :
    ∀ worker, w.worker = some worker → worker.state.stopping = false := by
  unfold CallerCoherent at h
  intro worker hworker
  have hserved {p : FileWorker → Prop} (hs : w.Served p) : worker.state.stopping = false := by
    obtain ⟨other,hother,hrunning,-⟩ := hs
    obtain rfl := Option.some.inj (hother.symm.trans hworker)
    exact hrunning
  cases hcaller : w.caller with
  | idle =>
    rw [hcaller] at h
    exact h worker hworker
  | acquiring call offset options =>
    rw [hcaller] at h
    exact hserved h
  | awaiting sequence call offset options =>
    rw [hcaller] at h
    exact hserved h
  | acquired ticket call offset options =>
    rw [hcaller] at hfree
    cases hfree
  | joining =>
    rw [hcaller] at hfree
    cases hfree
  | abandoning ticket =>
    rw [hcaller] at hfree
    cases hfree
  | gone =>
    rw [hcaller] at hfree
    cases hfree

/-- The worker's own moves touch nothing that its caller relies on. -/
theorem CallerCoherent.transfer {x y : FileWorker} (h : w.CallerCoherent) (hx : w.worker = some x)
    (hcaller : w'.caller = w.caller) (hy : w'.worker = some y)
    (hstopping : y.state.stopping = x.state.stopping) (hsequence : y.state.sequence = x.state.sequence) :
    w'.CallerCoherent := by
  have hserved {p q : FileWorker → Prop} (hpq : p x → q y) (hs : w.Served p) : w'.Served q := by
    obtain ⟨other,hother,hrunning,hp⟩ := hs
    obtain rfl := Option.some.inj (hother.symm.trans hx)
    exact ⟨y,hy,hstopping.trans hrunning,hpq hp⟩
  unfold CallerCoherent at h ⊢
  rw [hcaller]
  cases hcase : w.caller with
  | idle =>
    rw [hcase] at h
    intro worker hworker
    obtain rfl := Option.some.inj (hy.symm.trans hworker)
    exact hstopping.trans (h x hx)
  | acquiring call offset options =>
    rw [hcase] at h
    exact hserved id h
  | acquired ticket call offset options =>
    rw [hcase] at h
    exact hserved id h
  | awaiting sequence call offset options =>
    rw [hcase] at h
    exact hserved (fun hp => hp.trans hsequence.symm) h
  | joining => exact ⟨y,hy⟩
  | abandoning ticket => trivial
  | gone => trivial

theorem Coherent.idle {call : WriterCall} {result : Except TemporaryFileError Unit} (h : w.Coherent)
    (hrunning : ∀ worker, w.worker = some worker → worker.state.stopping = false) :
    (w.return_ call result).Coherent := ⟨h.worker,hrunning⟩

theorem Served.alone {p : FileWorker → Prop} {worker : FileWorker} (h : w.Served p)
    (hworker : w.worker = some worker) : worker.state.stopping = false ∧ p worker := by
  obtain ⟨other,hother,hrunning,hp⟩ := h
  obtain rfl := Option.some.inj (hother.symm.trans hworker)
  exact ⟨hrunning,hp⟩

end Writer

theorem FileWorker.Coherent.queue {worker : FileWorker} (h : worker.Coherent)
    (hfree : worker.state.pending = false) (hrunning : worker.state.stopping = false) (ticket : ℕ)
    (operation : FileOperation) (payload : Bytes) (options : TemporaryFileIoOptions) :
    (worker.queue ticket operation payload options).Coherent := by
  have hcount := h.count
  rw [hfree] at hcount
  refine ⟨rfl,?_,?_,?_,h.releasing,?_⟩
  · change worker.state.sequence + 1 = worker.state.completed + 1
    simpa using hcount
  · intro operation' bytes options' sequence offset hthread
    exact absurd ((h.running _ _ _ _ _ hthread).1.symm.trans hfree) (by decide)
  · intro sequence result hthread
    exact absurd ((h.ended _ _ hthread).1.symm.trans hfree) (by decide)
  · intro hthread
    exact absurd ((h.exited hthread).2.symm.trans hrunning) (by decide)

theorem FileWorker.Coherent.stop {worker : FileWorker} (h : worker.Coherent) : worker.stop.Coherent :=
  ⟨h.ticket,h.count,h.running,h.ended,h.releasing,fun hthread => ⟨(h.exited hthread).1,rfl⟩⟩

namespace Writer
variable {slots slots' : FileWorkerSlots} {w w' : Writer}

theorem Coherent.worker_moved {x y : FileWorker} (h : w.Coherent) (hx : w.worker = some x)
    (hcaller : w'.caller = w.caller) (hy : w'.worker = some y)
    (hstopping : y.state.stopping = x.state.stopping) (hsequence : y.state.sequence = x.state.sequence)
    (hcoherent : y.Coherent) : w'.Coherent := by
  refine ⟨?_,h.caller.transfer hx hcaller hy hstopping hsequence⟩
  intro other hother
  obtain rfl := Option.some.inj (hy.symm.trans hother)
  exact hcoherent

theorem Moved.coherent (hmoved : Moved slots w slots' w') (h : w.Coherent) : w'.Coherent := by
  have hcaller := h.caller
  cases hmoved with
  | failed e free => exact h.idle (hcaller.free free)
  | directFailed file e idle alone => exact ⟨by simp [return_,alone],by simp [CallerCoherent,return_,alone]⟩
  | directWrote idle alone open_ wrote =>
    exact ⟨by simp [return_,alone],by simp [CallerCoherent,return_,alone]⟩
  | directCompleted idle alone open_ done =>
    exact ⟨by simp [return_,alone],by simp [CallerCoherent,return_,alone]⟩
  | @begun call options worker idle open_ isolated =>
    have hworker : worker.Coherent ∧ worker.state.stopping = false := by
      rcases isolated with hsome | ⟨hnone,rfl⟩
      · rw [CallerCoherent,idle] at hcaller
        exact ⟨h.worker worker hsome,hcaller worker hsome⟩
      · exact ⟨.fresh,rfl⟩
    refine ⟨?_,⟨worker,rfl,hworker.2,trivial⟩⟩
    intro other hother
    obtain rfl := Option.some.inj hother
    exact hworker.1
  | acquired caller got =>
    rw [CallerCoherent,caller] at hcaller
    exact ⟨h.worker,hcaller⟩
  | @rejected call offset ticket options worker caller isolated =>
    rw [CallerCoherent,caller] at hcaller
    have hrunning := (hcaller.alone isolated).1
    refine ⟨?_,?_⟩
    · intro other hother
      obtain rfl := Option.some.inj hother
      exact h.worker _ isolated
    · intro other hother
      obtain rfl := Option.some.inj hother
      exact hrunning
  | @queued call offset ticket options worker caller isolated free running =>
    refine ⟨?_,⟨_,rfl,running,rfl⟩⟩
    intro other hother
    obtain rfl := Option.some.inj hother
    exact (h.worker worker isolated).queue free running _ _ _ _
  | advanced caller isolated finished succeeded more =>
    rw [CallerCoherent,caller] at hcaller
    obtain ⟨worker,hworker,hrunning,-⟩ := hcaller
    exact ⟨h.worker,⟨worker,hworker,hrunning,trivial⟩⟩
  | @wrote bytes offset sequence options worker caller isolated finished succeeded all =>
    have hfree : w.caller.Free (.write bytes) := caller ▸ .awaiting sequence offset options
    exact h.idle (hcaller.free hfree)
  | @finishing offset sequence options worker caller isolated finished succeeded =>
    refine ⟨?_,⟨_,rfl⟩⟩
    intro other hother
    obtain rfl := Option.some.inj hother
    exact (h.worker worker isolated).stop
  | joined caller isolated => exact ⟨by simp [return_],by simp [CallerCoherent,return_]⟩
  | destroyed idle alone => exact ⟨h.worker,trivial⟩
  | @abandoned worker idle isolated =>
    refine ⟨?_,trivial⟩
    intro other hother
    obtain rfl := Option.some.inj hother
    exact (h.worker worker isolated).stop
  | orphaned caller => exact ⟨h.worker,trivial⟩
  | left caller => exact ⟨h.worker,trivial⟩
  | @woke state isolated queued =>
    have hold := h.worker _ isolated
    refine h.worker_moved isolated rfl rfl rfl rfl ?_
    refine ⟨hold.ticket,hold.count,?_,by simp,by simp,by simp⟩
    rintro operation bytes options sequence offset ⟨⟩
    exact ⟨queued,rfl,rfl,rfl⟩
  | @exited state isolated free stopped =>
    have hold := h.worker _ isolated
    refine h.worker_moved isolated rfl rfl rfl rfl ?_
    exact ⟨hold.ticket,hold.count,by simp,by simp,by simp,fun _ => ⟨free,stopped⟩⟩
  | @ran state bytes sequence offset offset' options round file isolated moved =>
    have hold := h.worker _ isolated
    refine h.worker_moved isolated rfl rfl rfl rfl ?_
    refine ⟨hold.ticket,hold.count,?_,by simp,by simp,by simp⟩
    rintro operation' bytes' options' sequence' offset'' ⟨⟩
    exact hold.running _ _ _ _ _ rfl
  | @ended state operation bytes sequence offset options result file isolated outcome =>
    have hold := h.worker _ isolated
    have hrunning := hold.running _ _ _ _ _ rfl
    refine h.worker_moved isolated rfl rfl rfl rfl ?_
    refine ⟨hold.ticket,hold.count,by simp,?_,by simp,by simp⟩
    rintro sequence' result' ⟨⟩
    exact ⟨hrunning.1,hrunning.2.1⟩
  | @published state sequence result isolated =>
    have hold := h.worker _ isolated
    obtain ⟨hpending,hsequence⟩ := hold.ended _ _ rfl
    refine h.worker_moved isolated rfl rfl rfl rfl ?_
    refine ⟨rfl,?_,by simp,by simp,?_,by simp⟩
    · change state.sequence = sequence + 0
      exact hsequence.symm
    · rintro ticket ⟨⟩
      exact hold.ticket.trans hpending
  | @settled state ticket isolated =>
    have hold := h.worker _ isolated
    refine h.worker_moved isolated rfl rfl rfl rfl ?_
    exact ⟨hold.ticket,hold.count,by simp,by simp,by simp,by simp⟩
  | @rested state isolated =>
    have hold := h.worker _ isolated
    refine h.worker_moved isolated rfl rfl rfl rfl ?_
    exact ⟨hold.ticket,hold.count,by simp,by simp,by simp,by simp⟩

end Writer

namespace WriterSystem
variable {ι : Type} [DecidableEq ι]

theorem step_some {s s' : WriterSystem ι} {i : ι} {action : WriterStep}
    (h : s.step i action = some s') : ∃ slots w, (s.writers i).step s.slots action = some (slots,w) ∧
      s' = ⟨slots,Function.update s.writers i w⟩ := by
  rw [step,Option.map_eq_some_iff] at h
  obtain ⟨⟨slots,w⟩,hstep,rfl⟩ := h
  exact ⟨slots,w,hstep,rfl⟩

/-- A property of a system that its steps keep holds in every interleaving. -/
theorem after_induction {p : WriterSystem ι → Prop} (hstart : p {})
    (hstep : ∀ s i action s', p s → s.step i action = some s' → p s') (moves : List (ι × WriterStep)) :
    p (.after moves) := by
  unfold after
  induction moves using List.reverseRecOn with
  | nil => exact hstart
  | append_singleton moves m ih =>
    rw [List.foldl_append]
    dsimp only [List.foldl_cons,List.foldl_nil]
    cases h : (moves.foldl (fun s m => (s.step m.1 m.2).getD s) ({} : WriterSystem ι)).step m.1 m.2 with
    | none => exact ih
    | some s' => exact hstep _ _ _ _ ih h

/-- A property of a writer that its moves keep holds of every writer. -/
theorem after_writers {p : Writer → Prop} (hfresh : p {})
    (hmoved : ∀ slots w slots' w', Writer.Moved slots w slots' w' → p w → p w')
    (moves : List (ι × WriterStep)) (i : ι) : p ((after moves).writers i) := by
  refine @after_induction ι _ (fun s => ∀ i, p (s.writers i)) (fun _ => hfresh)
    ?_ moves i
  intro s j action s' h hstep i
  obtain ⟨slots,w,hwriter,rfl⟩ := step_some hstep
  by_cases hij : i = j
  · subst hij
    dsimp only
    rw [Function.update_self]
    exact hmoved _ _ _ _ (Writer.step_moved hwriter) (h i)
  · dsimp only
    rw [Function.update_of_ne hij]
    exact h i

end WriterSystem

end SpareNode.Storage
