import SpareNode.Library.TokenHolders
import SpareNode.Storage.WriterHandover

/-! # The capacity of file workers is accounted for

The counters of the slots are the tickets that are out. Each such ticket is with one thread that
will give it back: the caller that acquired it, the operation that it was queued for, or the worker
that has ended that operation.
-/
namespace SpareNode.Storage
open Concurrency

/-- Setting one entry of a list moves a count by what the two entries count. -/
theorem countP_set_add {α : Type} (p : α → Bool) {l : List α} {i : ℕ} {a b : α} (h : l[i]? = some b) :
    (l.set i a).countP p + (if p b then 1 else 0) = l.countP p + (if p a then 1 else 0) := by
  induction l generalizing i with
  | nil => exact absurd h (by simp)
  | cons x rest ih =>
    cases i with
    | zero =>
      obtain rfl : x = b := by simpa using h
      simp only [List.set_cons_zero,List.countP_cons]
      omega
    | succ i =>
      have hrest := ih (by simpa using h)
      simp only [List.set_cons_succ,List.countP_cons]
      omega

namespace FileWorkerSlots

/-- A ticket that was acquired and not yet released. -/
def Live (slots : FileWorkerSlots) (ticket : ℕ) : Prop :=
  ∃ t, slots.tickets[ticket]? = some t ∧ t.released = false

/-- The counters and the history say what the tickets say. -/
structure Counted (slots : FileWorkerSlots) : Prop where
  active : slots.active = (slots.tickets.countP fun t => !t.released : ℕ)
  orphaned : slots.orphaned = (slots.tickets.countP fun t => !t.released && t.orphaned : ℕ)
  bound : slots.active ≤ maximumWorkers
  once : (slots.releases.map Prod.fst).Nodup
  released : ∀ ticket, ticket ∈ slots.releases.map Prod.fst ↔
    ∃ t, slots.tickets[ticket]? = some t ∧ t.released = true

variable {slots slots' : FileWorkerSlots} {ticket : ℕ}

theorem Counted.fresh : ({} : FileWorkerSlots).Counted :=
  ⟨rfl,rfl,by decide,List.nodup_nil,by simp⟩

theorem Counted.orphaned_le (h : slots.Counted) :
    0 ≤ slots.orphaned ∧ slots.orphaned ≤ slots.active := by
  have hle : (slots.tickets.countP fun t => !t.released && t.orphaned) ≤
      slots.tickets.countP fun t => !t.released :=
    List.countP_mono_left fun t _ ht => (Bool.and_eq_true_iff.mp ht).1
  have hactive := h.active
  have horphaned := h.orphaned
  omega

theorem Counted.acquire (h : slots.Counted) (hroom : slots.active < maximumWorkers) :
    ({ slots with active := slots.active + 1, tickets := slots.tickets ++ [{}] } :
      FileWorkerSlots).Counted := by
  refine ⟨?_,?_,hroom,h.once,?_⟩
  · dsimp only
    rw [List.countP_append,h.active]
    rfl
  · dsimp only
    rw [List.countP_append,h.orphaned]
    rfl
  · intro t
    rw [h.released]
    dsimp only
    constructor
    · rintro ⟨tk,htk,hreleased⟩
      exact ⟨tk,(List.getElem?_append_left (List.getElem?_eq_some_iff.mp htk).1).trans htk,hreleased⟩
    · rintro ⟨tk,htk,hreleased⟩
      rcases lt_or_ge t slots.tickets.length with hlt | hge
      · exact ⟨tk,(List.getElem?_append_left hlt).symm.trans htk,hreleased⟩
      · rw [List.getElem?_append_right hge] at htk
        have htk' := List.mem_of_getElem? htk
        rw [List.mem_singleton.mp htk'] at hreleased
        exact absurd hreleased (by decide)

theorem live_acquire (u : ℕ) :
    ({ slots with active := slots.active + 1, tickets := slots.tickets ++ [{}] } : FileWorkerSlots).Live u ↔
      slots.Live u ∨ u = slots.tickets.length := by
  unfold Live
  dsimp only
  rcases lt_trichotomy u slots.tickets.length with hlt | rfl | hgt
  · rw [List.getElem?_append_left hlt]
    simp [hlt.ne]
  · simp
  · rw [List.getElem?_eq_none (by simp; omega),List.getElem?_eq_none hgt.le]
    simp
    omega

theorem set_getElem? {t a : Ticket} (h : slots.tickets[ticket]? = some t) (u : ℕ) :
    (slots.tickets.set ticket a)[u]? = if u = ticket then some a else slots.tickets[u]? := by
  rw [List.getElem?_set]
  by_cases hu : u = ticket
  · rw [if_pos hu.symm,if_pos hu,if_pos (List.getElem?_eq_some_iff.mp h).1]
  · rw [if_neg (Ne.symm hu),if_neg hu]

theorem Counted.orphan (h : slots.Counted) (ticket : ℕ) : (slots.orphan ticket).Counted := by
  unfold FileWorkerSlots.orphan
  split
  · exact h
  · rename_i t ht
    split
    · rename_i hfresh
      obtain ⟨orphaned,released⟩ := t
      simp only [Bool.and_eq_true,Bool.not_eq_true'] at hfresh
      obtain ⟨rfl,rfl⟩ := hfresh
      have hactive := countP_set_add (fun t => !t.released) (a := ⟨true,false⟩) ht
      have horphaned := countP_set_add (fun t => !t.released && t.orphaned) (a := ⟨true,false⟩) ht
      refine ⟨?_,?_,h.bound,h.once,?_⟩
      · have hold := h.active
        simp at hactive ⊢
        omega
      · have hold := h.orphaned
        simp at horphaned ⊢
        omega
      · intro u
        rw [h.released]
        dsimp only
        rw [set_getElem? ht]
        by_cases hu : u = ticket
        · subst hu
          simp [ht]
        · rw [if_neg hu]
    · exact h

theorem live_orphan (ticket u : ℕ) : (slots.orphan ticket).Live u ↔ slots.Live u := by
  unfold FileWorkerSlots.orphan
  split
  · rfl
  · rename_i t ht
    split
    · unfold Live
      dsimp only
      rw [set_getElem? ht]
      by_cases hu : u = ticket
      · subst hu
        simp [ht]
      · rw [if_neg hu]
    · rfl

theorem Counted.release (h : slots.Counted) (hlive : slots.Live ticket) (releaser : Releaser) :
    (slots.release ticket releaser).Counted := by
  obtain ⟨t,ht,hreleased⟩ := hlive
  have hfresh : ticket ∉ slots.releases.map Prod.fst := by
    intro hmem
    obtain ⟨t',ht',hreleased'⟩ := (h.released ticket).mp hmem
    rw [ht'] at ht
    obtain rfl := Option.some.inj ht
    exact absurd (hreleased.symm.trans hreleased') (by decide)
  have hactive := countP_set_add (fun t => !t.released) (a := { t with released := true }) ht
  have horphaned := countP_set_add (fun t => !t.released && t.orphaned)
    (a := { t with released := true }) ht
  unfold FileWorkerSlots.release
  dsimp only
  rw [ht]
  dsimp only
  rw [if_pos (by simp [hreleased])]
  simp only [hreleased] at hactive horphaned
  have holdActive := h.active
  have holdOrphaned := h.orphaned
  have hbound := h.bound
  refine ⟨?_,?_,?_,?_,?_⟩
  · dsimp only
    simp at hactive
    omega
  · dsimp only
    simp at horphaned
    split at horphaned <;> rename_i horphan
    · rw [if_pos horphan]
      omega
    · rw [if_neg horphan]
      omega
  · dsimp only
    omega
  · rw [List.map_append]
    exact List.Nodup.append h.once (List.nodup_singleton _) (by simpa using hfresh)
  · intro u
    dsimp only
    rw [set_getElem? ht,List.map_append,List.mem_append,h.released]
    by_cases hu : u = ticket
    · subst hu
      simp
    · rw [if_neg hu]
      simp [hu]

theorem live_release (hlive : slots.Live ticket) (releaser : Releaser) (u : ℕ) :
    (slots.release ticket releaser).Live u ↔ slots.Live u ∧ u ≠ ticket := by
  obtain ⟨t,ht,hreleased⟩ := hlive
  unfold FileWorkerSlots.release
  dsimp only
  rw [ht]
  dsimp only
  rw [if_pos (by simp [hreleased])]
  unfold Live
  dsimp only
  rw [set_getElem? ht]
  by_cases hu : u = ticket
  · subst hu
    simp
  · rw [if_neg hu]
    simp [hu]

end FileWorkerSlots

/-- The places of a ticket within a writer. -/
inductive TicketPlace where
  | caller | queue | worker
deriving DecidableEq, Repr

def Caller.ticket : Caller → Option ℕ
  | .acquired ticket _ _ _ => some ticket
  | _ => none

def WorkerThread.ticket : WorkerThread → Option ℕ
  | .releasing ticket => ticket
  | _ => none

/-- The ticket at a place: with a caller that has acquired it, with the pending operation, or with
the worker that is about to release it. -/
def Writer.holding (w : Writer) : TicketPlace → Option ℕ
  | .caller => w.caller.ticket
  | .queue => w.worker.bind fun worker => worker.state.ticket
  | .worker => w.worker.bind fun worker => worker.thread.ticket

inductive TicketMove (slots : FileWorkerSlots) (f : TicketPlace → Option ℕ) :
    FileWorkerSlots → (TicketPlace → Option ℕ) → Prop where
  | kept : TicketMove slots f slots f
  | acquired (empty : f .caller = none) (room : slots.active < maximumWorkers) :
    TicketMove slots f { slots with active := slots.active + 1, tickets := slots.tickets ++ [{}] }
      (Function.update f .caller (some slots.tickets.length))
  | passed {p q : TicketPlace} {ticket : ℕ} (full : f p = some ticket) (empty : f q = none) :
    TicketMove slots f slots (Function.update (Function.update f p none) q (some ticket))
  | released {p : TicketPlace} {ticket : ℕ} (releaser : Releaser) (full : f p = some ticket)
      (by_ : p = .caller ∧ releaser = .caller ∨ p = .worker ∧ releaser = .worker) :
    TicketMove slots f (slots.release ticket releaser) (Function.update f p none)
  | orphaned (ticket : ℕ) : TicketMove slots f (slots.orphan ticket) f

theorem Caller.Free.ticket {call : WriterCall} {caller : Caller} (h : caller.Free call) :
    caller.ticket = none := by
  cases h <;> rfl

variable {slots slots' : FileWorkerSlots} {w w' : Writer} {f : TicketPlace → Option ℕ}

theorem TicketMove.of_places (h : TicketMove slots w.holding slots' f)
    (hcaller : w'.caller.ticket = f .caller) (hqueue : w'.holding .queue = f .queue)
    (hworker : w'.holding .worker = f .worker) : TicketMove slots w.holding slots' w'.holding := by
  have hf : w'.holding = f := by
    funext p
    cases p with
    | caller => exact hcaller
    | queue => exact hqueue
    | worker => exact hworker
  rw [hf]
  exact h

theorem Writer.holding_some {worker : FileWorker} (h : w.worker = some worker) :
    w.holding .queue = worker.state.ticket ∧ w.holding .worker = worker.thread.ticket := by
  simp [holding,h]

theorem Writer.holding_none (h : w.worker = none) : w.holding .queue = none ∧ w.holding .worker = none := by
  simp [holding,h]

/-- A move that leaves the worker's tickets alone, of a caller without one. -/
theorem TicketMove.idle (hcaller : w.caller.ticket = none) (hcaller' : w'.caller.ticket = none)
    (hqueue : w'.holding .queue = w.holding .queue) (hworker : w'.holding .worker = w.holding .worker) :
    TicketMove slots w.holding slots w'.holding :=
  TicketMove.kept.of_places (hcaller'.trans hcaller.symm) hqueue hworker

/-- Every move of a writer passes its tickets on, or gives one back. -/
theorem Writer.Moved.tickets (hmoved : Moved slots w slots' w') (h : w.Coherent) :
    TicketMove slots w.holding slots' w'.holding := by
  cases hmoved with
  | failed e free => exact .idle free.ticket rfl rfl rfl
  | directFailed file e idle alone => exact .idle (by rw [idle]; rfl) rfl rfl rfl
  | directWrote idle alone open_ wrote => exact .idle (by rw [idle]; rfl) rfl rfl rfl
  | directCompleted idle alone open_ done => exact .idle (by rw [idle]; rfl) rfl rfl rfl
  | begun call options idle open_ isolated =>
    have hcaller : w.caller.ticket = none := by rw [idle]; rfl
    rcases isolated with hsome | ⟨hnone,rfl⟩
    · exact .idle hcaller rfl (holding_some hsome).1.symm (holding_some hsome).2.symm
    · exact .idle hcaller rfl (holding_none hnone).1.symm (holding_none hnone).2.symm
  | @acquired call offset ticket options moment slots' caller got =>
    rcases FileWorkerSlots.acquire_cases got with ⟨e,hfailed,-⟩ | ⟨hticket,hroom,rfl⟩
    · exact absurd hfailed (by simp)
    · obtain rfl := Except.ok.inj hticket
      exact (TicketMove.acquired (by rw [holding,caller]; rfl) hroom).of_places rfl rfl rfl
  | @rejected call offset ticket options worker caller isolated =>
    have hcaller : w.holding .caller = some ticket := by rw [holding,caller]; rfl
    exact (TicketMove.released .caller hcaller (.inl ⟨rfl,rfl⟩)).of_places rfl (holding_some isolated).1.symm
      (holding_some isolated).2.symm
  | @queued call offset ticket options worker caller isolated free running =>
    have hcaller : w.holding .caller = some ticket := by rw [holding,caller]; rfl
    have hempty : w.holding .queue = none := by
      rw [(holding_some isolated).1,← Option.not_isSome_iff_eq_none,(h.worker worker isolated).ticket,free]
      decide
    exact (TicketMove.passed hcaller hempty).of_places rfl rfl (holding_some isolated).2.symm
  | advanced caller isolated finished succeeded more => exact .idle (by rw [caller]; rfl) rfl rfl rfl
  | wrote caller isolated finished succeeded all => exact .idle (by rw [caller]; rfl) rfl rfl rfl
  | finishing caller isolated finished succeeded =>
    exact .idle (by rw [caller]; rfl) rfl (holding_some isolated).1.symm (holding_some isolated).2.symm
  | @joined state caller isolated =>
    have hfree : state.ticket = none := by
      have hcoherent := h.worker _ isolated
      rw [← Option.not_isSome_iff_eq_none,hcoherent.ticket,(hcoherent.exited rfl).1]
      decide
    exact .idle (by rw [caller]; rfl) rfl ((holding_some isolated).1.trans hfree).symm
      (holding_some isolated).2.symm
  | destroyed idle alone => exact .idle (by rw [idle]; rfl) rfl rfl rfl
  | abandoned idle isolated =>
    exact .idle (by rw [idle]; rfl) rfl (holding_some isolated).1.symm (holding_some isolated).2.symm
  | @orphaned ticket caller =>
    exact (TicketMove.orphaned ticket).of_places (by rw [holding,caller]; rfl) rfl rfl
  | left caller => exact .idle (by rw [caller]; rfl) rfl rfl rfl
  | woke isolated queued =>
    exact TicketMove.kept.of_places rfl (holding_some isolated).1.symm (holding_some isolated).2.symm
  | exited isolated free stopped =>
    exact TicketMove.kept.of_places rfl (holding_some isolated).1.symm (holding_some isolated).2.symm
  | ran isolated moved =>
    exact TicketMove.kept.of_places rfl (holding_some isolated).1.symm (holding_some isolated).2.symm
  | ended isolated outcome =>
    exact TicketMove.kept.of_places rfl (holding_some isolated).1.symm (holding_some isolated).2.symm
  | @published state sequence result isolated =>
    have hcoherent := h.worker _ isolated
    obtain ⟨ticket,hticket⟩ : ∃ ticket, state.ticket = some ticket :=
      Option.isSome_iff_exists.mp (hcoherent.ticket.trans (hcoherent.ended _ _ rfl).1)
    exact (TicketMove.passed ((holding_some isolated).1.trans hticket) (holding_some isolated).2).of_places
      rfl rfl hticket
  | @settled state ticket isolated =>
    exact (TicketMove.released .worker (holding_some isolated).2 (.inr ⟨rfl,rfl⟩)).of_places rfl
      (holding_some isolated).1.symm rfl
  | rested isolated =>
    exact TicketMove.kept.of_places rfl (holding_some isolated).1.symm (holding_some isolated).2.symm

theorem FileWorkerSlots.releases_release (ticket : ℕ) (releaser : Releaser) :
    (slots.release ticket releaser).releases = slots.releases ++ [(ticket,releaser)] := by
  unfold release
  dsimp only
  split
  · rfl
  · split <;> rfl

theorem FileWorkerSlots.releases_orphan (ticket : ℕ) : (slots.orphan ticket).releases = slots.releases := by
  unfold orphan
  split
  · rfl
  · split <;> rfl

theorem TicketMove.releases {g : TicketPlace → Option ℕ} (h : TicketMove slots f slots' g) :
    slots'.releases = slots.releases ∨
    ∃ ticket, slots'.releases = slots.releases ++ [(ticket,.caller)] ∧ f .caller = some ticket ∨
      slots'.releases = slots.releases ++ [(ticket,.worker)] ∧ f .worker = some ticket := by
  cases h with
  | kept => exact .inl rfl
  | acquired empty room => exact .inl rfl
  | passed full empty => exact .inl rfl
  | @released p ticket releaser full by_ =>
    refine .inr ⟨ticket,?_⟩
    rcases by_ with ⟨rfl,rfl⟩ | ⟨rfl,rfl⟩
    · exact .inl ⟨FileWorkerSlots.releases_release ticket .caller,full⟩
    · exact .inr ⟨FileWorkerSlots.releases_release ticket .worker,full⟩
  | orphaned ticket => exact .inl (FileWorkerSlots.releases_orphan ticket)

variable {ι : Type} [DecidableEq ι]

def WriterSystem.place (s : WriterSystem ι) (h : ι × TicketPlace) : Option ℕ := (s.writers h.1).holding h.2

/-- The slots are counted, and every ticket that is out has one holder. -/
structure WriterSystem.Accounted (s : WriterSystem ι) : Prop where
  counted : s.slots.Counted
  held : TokensHeld s.slots.Live s.place
  coherent : ∀ i, (s.writers i).Coherent

omit [DecidableEq ι] in
theorem WriterSystem.Accounted.fresh : ({} : WriterSystem ι).Accounted := by
  refine ⟨.fresh,⟨?_,?_,?_⟩,fun i => .fresh⟩
  · intro h ticket hplace
    rcases h with ⟨i,p⟩
    cases p <;> exact absurd hplace (by simp [place,Writer.holding,Caller.ticket])
  · intro h k ticket hplace
    rcases h with ⟨i,p⟩
    cases p <;> exact absurd hplace (by simp [place,Writer.holding,Caller.ticket])
  · intro ticket hlive
    obtain ⟨t,ht,-⟩ := hlive
    exact absurd ht (by simp)

theorem update_place {f : ι → TicketPlace → Option ℕ} (i : ι) (p : TicketPlace) (v : Option ℕ) :
    Function.uncurry (Function.update f i (Function.update (f i) p v)) =
      Function.update (Function.uncurry f) (i,p) v := by
  funext ⟨j,q⟩
  by_cases hj : j = i
  · subst hj
    rw [Function.uncurry_apply_pair,Function.update_self]
    by_cases hq : q = p
    · subst hq
      rw [Function.update_self,Function.update_self]
    · rw [Function.update_of_ne hq,Function.update_of_ne (by simp [hq])]
      rfl
  · rw [Function.uncurry_apply_pair,Function.update_of_ne hj,Function.update_of_ne (by simp [hj])]
    rfl

/-- A move of one writer's tickets keeps the accounts of all. -/
theorem TicketMove.accounted {F : ι → TicketPlace → Option ℕ} {i : ι}
    (hmove : TicketMove slots (F i) slots' f) (hcounted : slots.Counted)
    (hheld : TokensHeld slots.Live (Function.uncurry F)) :
    slots'.Counted ∧ TokensHeld slots'.Live (Function.uncurry (Function.update F i f)) := by
  cases hmove with
  | kept =>
    rw [Function.update_eq_self]
    exact ⟨hcounted,hheld⟩
  | acquired empty room =>
    rw [update_place]
    refine ⟨hcounted.acquire room,hheld.issue empty ?_ FileWorkerSlots.live_acquire⟩
    rintro ⟨t,ht,-⟩
    exact absurd ht (by simp)
  | @passed p q ticket full empty =>
    refine ⟨hcounted,?_⟩
    have hplace := update_place (f := Function.update F i (Function.update (F i) p none)) i q (some ticket)
    rw [Function.update_self,Function.update_idem,update_place] at hplace
    rw [hplace]
    exact hheld.move full empty
  | @released p ticket releaser full by_ =>
    have hlive : slots.Live ticket := hheld.out (i,p) ticket full
    rw [update_place]
    exact ⟨hcounted.release hlive releaser,hheld.retire full (FileWorkerSlots.live_release hlive releaser)⟩
  | orphaned ticket =>
    rw [Function.update_eq_self]
    exact ⟨hcounted.orphan ticket,hheld.congr_live (FileWorkerSlots.live_orphan ticket)⟩

namespace WriterSystem
variable {s s' : WriterSystem ι} {i : ι} {action : WriterStep}

theorem place_update (slots : FileWorkerSlots) (i : ι) (w : Writer) :
    place ⟨slots,Function.update s.writers i w⟩ =
      Function.uncurry (Function.update (fun j => (s.writers j).holding) i w.holding) := by
  funext ⟨j,p⟩
  rw [Function.uncurry_apply_pair,place]
  by_cases hj : j = i
  · subst hj
    dsimp only
    rw [Function.update_self,Function.update_self]
  · dsimp only
    rw [Function.update_of_ne hj,Function.update_of_ne hj]

theorem Accounted.step (h : s.Accounted) (hstep : s.step i action = some s') : s'.Accounted := by
  obtain ⟨slots,w,hwriter,rfl⟩ := step_some hstep
  have hmoved := Writer.step_moved hwriter
  have hmove : TicketMove s.slots ((fun j => (s.writers j).holding) i) slots w.holding :=
    hmoved.tickets (h.coherent i)
  obtain ⟨hcounted,hheld⟩ := hmove.accounted (F := fun j => (s.writers j).holding) h.counted h.held
  refine ⟨hcounted,?_,?_⟩
  · rw [place_update]
    exact hheld
  · intro j
    by_cases hj : j = i
    · subst hj
      dsimp only
      rw [Function.update_self]
      exact hmoved.coherent (h.coherent j)
    · dsimp only
      rw [Function.update_of_ne hj]
      exact h.coherent j

theorem accounted (moves : List (ι × WriterStep)) : (after moves).Accounted :=
  after_induction .fresh (fun _ _ _ _ h hstep => h.step hstep) moves

/-- A ticket is given back by the caller that holds it, or by the worker that has taken it over. -/
theorem Accounted.releases (h : s.Accounted) (hstep : s.step i action = some s') :
    s'.slots.releases = s.slots.releases ∨
    ∃ ticket, s.slots.Live ticket ∧
      (s'.slots.releases = s.slots.releases ++ [(ticket,.caller)] ∧ s.place (i,.caller) = some ticket ∨
        s'.slots.releases = s.slots.releases ++ [(ticket,.worker)] ∧ s.place (i,.worker) = some ticket) := by
  obtain ⟨slots,w,hwriter,rfl⟩ := step_some hstep
  rcases ((Writer.step_moved hwriter).tickets (h.coherent i)).releases with hsame | ⟨ticket,hback⟩
  · exact .inl hsame
  · have hlive : s.slots.Live ticket := by
      rcases hback with ⟨-,hfull⟩ | ⟨-,hfull⟩
      · exact h.held.out (i,.caller) ticket hfull
      · exact h.held.out (i,.worker) ticket hfull
    exact .inr ⟨ticket,hlive,hback⟩

end WriterSystem
end SpareNode.Storage
