import SpareNode.Network.ConnectionDispatcher

/-! # The dispatcher's accounting

`owned_count` counts the connections in two rings, in the admission slots and on their way between
them, so a connection that is drained or promoted always finds room. The invariant says which
queue each ring holds and where every submitted connection is.
-/
namespace SpareNode.Network
variable {ι : Type}

def slotSockets {β : Type} (slots : List (Option (ι × β))) : List ι := slots.filterMap (Option.map Prod.fst)

def slotSocket {β : Type} (slot : Option (ι × β)) : List ι := (slot.map Prod.fst).toList

section
variable {β : Type} {slots : List (Option (ι × β))} {i : ℕ} {old new : Option (ι × β)}

theorem slotSockets_cons (slot : Option (ι × β)) (slots : List (Option (ι × β))) :
    slotSockets (slot :: slots) = slotSocket slot ++ slotSockets slots := by
  cases slot <;> simp [slotSockets,slotSocket]

/-- A slot that is filled, changed or emptied changes the sockets by its own. -/
theorem slotSockets_set (h : slots[i]? = some old) :
    (slotSocket old ++ slotSockets (slots.set i new)).Perm (slotSocket new ++ slotSockets slots) := by
  induction slots generalizing i with
  | nil => cases h
  | cons slot slots ih =>
    cases i with
    | zero =>
      obtain rfl := Option.some.inj h
      rw [List.set_cons_zero,slotSockets_cons,slotSockets_cons,← List.append_assoc,← List.append_assoc]
      exact List.perm_append_comm.append_right _
    | succ i =>
      rw [List.set_cons_succ,slotSockets_cons,slotSockets_cons,← List.append_assoc,← List.append_assoc]
      apply (List.perm_append_comm.append_right _).trans
      rw [List.append_assoc]
      apply ((ih h).append_left _).trans
      rw [← List.append_assoc]
      exact List.perm_append_comm.append_right _

theorem slotSockets_full (h : slots.findIdx? Option.isNone = none) : (slotSockets slots).length = slots.length := by
  rw [List.findIdx?_eq_none_iff] at h
  induction slots with
  | nil => rfl
  | cons slot slots ih =>
    rw [slotSockets_cons,List.length_append,List.length_cons,ih fun x hx => h x (List.mem_cons_of_mem _ hx)]
    cases slot with
    | none => cases h none List.mem_cons_self
    | some x => rw [slotSocket,Nat.add_comm]; rfl

theorem slotSockets_free (h : slots.findIdx? Option.isNone = some i) : slots[i]? = some none := by
  obtain ⟨hi,hnone,-⟩ := List.findIdx?_eq_some_iff_getElem.mp h
  rw [List.getElem?_eq_getElem hi,Option.isNone_iff_eq_none.mp hnone]

theorem slotSockets_emptied : slotSockets (slots.map (fun _ => (none : Option (ι × β)))) = [] := by
  simp [slotSockets]

end

namespace Dispatcher
variable {limits : DispatcherLimits} {s : Dispatcher ι} {ready accepted : List (ι × TcpConnection)}

/-- The sockets that the dispatcher holds, by the queues of its rings. -/
def heldSockets (ready accepted : List (ι × TcpConnection)) (s : Dispatcher ι) : List ι :=
  ready.map Prod.fst ++ accepted.map Prod.fst ++ slotSockets s.admissions ++ slotSocket s.promoting

/-- The sizes that are set at the start. -/
structure Sized (limits : DispatcherLimits) (s : Dispatcher ι) : Prop where
  ready : s.ready.slots.length = limits.pendingConnectionLimit
  accepted : s.accepted.slots.length = limits.pendingConnectionLimit
  admissions : s.admissions.length = if limits.admission.isSome then limits.pendingConnectionLimit else 0

structure Accounted (limits : DispatcherLimits) (s : Dispatcher ι) (ready accepted : List (ι × TcpConnection)) :
    Prop where
  sized : Sized limits s
  readyRing : s.ready.Holds ready
  acceptedRing : s.accepted.Holds accepted
  balance : s.history.submitted.Perm
    (s.history.handed.map Prod.snd ++ heldSockets ready accepted s ++ s.history.dropped)
  owned : s.stopping = false → s.ownedCount = (heldSockets ready accepted s).length ∧
    s.ownedCount ≤ limits.pendingConnectionLimit ∧ s.history.dropped = [] ∧
    s.history.handed.map Prod.snd ++ ready.map Prod.fst = s.history.enteredReady
  stopped : s.stopping = true → ready = [] ∧ accepted = []
  order : s.history.handed.map Prod.snd <+: s.history.enteredReady
  unadmitted : limits.admission.isSome = false → accepted = []

theorem start_accounted (limits : DispatcherLimits) : Accounted limits (start limits : Dispatcher ι) [] [] := by
  refine ⟨⟨?_,?_,?_⟩,Ring.empty_holds limits.pending,Ring.empty_holds limits.pending,?_,?_,nofun,?_,fun _ => rfl⟩
  · simp [start,Ring.empty]
  · simp [start,Ring.empty]
  · simp [start]
  · simp [start,heldSockets,slotSockets,slotSocket]
  · simp [start,heldSockets,slotSockets,slotSocket]
  · simp [start]

/-- The balance of a step, one socket at a time. -/
theorem balance_of_count [DecidableEq ι] {all handed held dropped all' handed' held' dropped' : List ι}
    (h : all.Perm (handed ++ held ++ dropped))
    (hcount : ∀ c, all'.count c + (handed.count c + held.count c + dropped.count c) =
      all.count c + (handed'.count c + held'.count c + dropped'.count c)) :
    all'.Perm (handed' ++ held' ++ dropped') := by
  apply List.perm_iff_count.mpr
  intro c
  have hbefore := List.perm_iff_count.mp h c
  have hstep := hcount c
  simp only [List.count_append] at hbefore ⊢
  omega

theorem heldSockets_length : (heldSockets ready accepted s).length =
    ready.length + accepted.length + (slotSockets s.admissions).length + (slotSocket s.promoting).length := by
  simp only [heldSockets,List.length_append,List.length_map]

theorem enqueueReady_accounted {t : Dispatcher ι} {socket : ι} {connection : TcpConnection} {dropped : List ι}
    (hsized : Sized limits t) (hready : t.ready.Holds ready) (haccepted : t.accepted.Holds accepted)
    (hrunning : t.stopping = false) (hdropped : t.history.dropped = dropped)
    (hbalance : t.history.submitted.Perm (t.history.handed.map Prod.snd ++
      (socket :: heldSockets ready accepted t) ++ dropped))
    (howned : t.ownedCount = (heldSockets ready accepted t).length + 1)
    (hlimit : t.ownedCount ≤ limits.pendingConnectionLimit) (hnone : dropped = [])
    (horder : t.history.handed.map Prod.snd ++ ready.map Prod.fst = t.history.enteredReady)
    (hunadmitted : limits.admission.isSome = false → accepted = []) :
    Accounted limits (t.enqueueReady socket connection) (ready ++ [(socket,connection)]) accepted := by
  classical
  have hroom : ready.length < t.ready.slots.length := by
    rw [heldSockets_length] at howned
    rw [hsized.ready]
    omega
  have hentered : t.history.handed.map Prod.snd ++ (ready ++ [(socket,connection)]).map Prod.fst =
      t.history.enteredReady ++ [socket] := by
    rw [← horder,List.map_append,List.append_assoc]
    rfl
  refine ⟨⟨by simpa [enqueueReady] using hsized.ready,hsized.accepted,hsized.admissions⟩,hready.push hroom,
    haccepted,?_,fun _ => ⟨?_,hlimit,hdropped.trans hnone,hentered⟩,?_,⟨_,hentered⟩,hunadmitted⟩
  · apply balance_of_count hbalance
    intro c
    simp only [enqueueReady,heldSockets,hdropped,List.map_append,List.map_cons,List.map_nil,List.count_append,
      List.count_cons,List.count_nil]
    omega
  · rw [heldSockets_length] at howned ⊢
    simp only [enqueueReady,List.length_append,List.length_singleton]
    omega
  · intro hstopping
    rw [show (t.enqueueReady socket connection).stopping = t.stopping from rfl,hrunning] at hstopping
    cases hstopping

theorem submit_accounted (h : Accounted limits s ready accepted) (socket : ι) (connection : TcpConnection)
    (isOpen cancelled : Bool) :
    ∃ ready' accepted', Accounted limits (s.submit limits socket connection isOpen cancelled).2 ready' accepted' := by
  classical
  unfold submit
  split
  · exact ⟨ready,accepted,h⟩
  · split
    · exact ⟨ready,accepted,h⟩
    · split
      · exact ⟨ready,accepted,h⟩
      · rename_i hstopping
        split
        · exact ⟨ready,accepted,h⟩
        · rename_i hlimit
          have hrunning : s.stopping = false := by simpa using hstopping
          obtain ⟨howned,-,hdropped,horder⟩ := h.owned hrunning
          have hbalance : (s.history.submitted ++ [socket]).Perm (s.history.handed.map Prod.snd ++
              (socket :: heldSockets ready accepted s) ++ s.history.dropped) := by
            apply balance_of_count h.balance
            intro c
            simp only [List.count_append,List.count_cons,List.count_nil]
            omega
          dsimp only
          split
          · rename_i henabled
            have hroom : accepted.length < s.accepted.slots.length := by
              rw [heldSockets_length] at howned
              rw [h.sized.accepted]
              omega
            refine ⟨ready,accepted ++ [(socket,connection)],⟨h.sized.ready,by simpa using h.sized.accepted,
              h.sized.admissions⟩,h.readyRing,h.acceptedRing.push hroom,?_,fun _ => ⟨?_,by dsimp only; omega,hdropped,
              horder⟩,?_,h.order,?_⟩
            · apply balance_of_count hbalance
              intro c
              simp only [heldSockets,List.map_append,List.map_cons,List.map_nil,List.count_append,List.count_cons,
                List.count_nil]
              omega
            · rw [heldSockets_length] at howned ⊢
              simp only [List.length_append,List.length_singleton]
              omega
            · intro hstopped
              rw [hrunning] at hstopped
              cases hstopped
            · intro hdisabled
              rw [hdisabled] at henabled
              cases henabled
          · refine ⟨_,accepted,enqueueReady_accounted ⟨h.sized.ready,h.sized.accepted,h.sized.admissions⟩ h.readyRing
              h.acceptedRing hrunning rfl hbalance ?_ ?_ hdropped horder h.unadmitted⟩
            · exact congrArg (· + 1) howned
            · dsimp only
              omega

theorem requestStop_accounted (h : Accounted limits s ready accepted) :
    ∃ ready' accepted', Accounted limits s.requestStop ready' accepted' := by
  classical
  unfold requestStop
  split
  · exact ⟨ready,accepted,h⟩
  · rename_i hstopping
    have hready := List.perm_iff_count.mp (h.readyRing.filterMap_perm Prod.fst)
    have haccepted := List.perm_iff_count.mp (h.acceptedRing.filterMap_perm Prod.fst)
    refine ⟨[],[],⟨by simpa using h.sized.ready,by simpa using h.sized.accepted,h.sized.admissions⟩,
      h.readyRing.clear,h.acceptedRing.clear,?_,nofun,fun _ => ⟨rfl,rfl⟩,h.order,fun _ => rfl⟩
    apply balance_of_count h.balance
    intro c
    have hreadyCount := hready c
    have hacceptedCount := haccepted c
    simp only [heldSockets,List.map_nil,List.count_append,List.count_nil,List.filterMap_append]
    omega

/-- A worker takes the oldest connection of the ready ring. -/
theorem dequeue_accounted {socket : ι} {connection : TcpConnection}
    (h : Accounted limits s ((socket,connection) :: ready) accepted) (hrunning : s.stopping = false) (worker : ℕ) :
    ∃ s', s.dequeue worker = .ok s' ∧ Accounted limits s' ready accepted := by
  classical
  obtain ⟨ring,hpop,hholds,hsize⟩ := h.readyRing.pop
  obtain ⟨howned,hlimit,hdropped,horder⟩ := h.owned hrunning
  have hhanded : (s.history.handed ++ [(worker,socket)]).map Prod.snd ++ ready.map Prod.fst =
      s.history.enteredReady := by
    rw [← horder]
    simp
  rw [dequeue,hpop]
  refine ⟨_,rfl,⟨hsize.trans h.sized.ready,h.sized.accepted,h.sized.admissions⟩,hholds,
    h.acceptedRing,?_,fun _ => ⟨?_,?_,hdropped,hhanded⟩,?_,⟨_,hhanded⟩,h.unadmitted⟩
  · apply balance_of_count h.balance
    intro c
    simp only [heldSockets,List.map_append,List.map_cons,List.map_nil,List.count_append,List.count_cons,
      List.count_nil]
    omega
  · rw [heldSockets_length] at howned ⊢
    simp only [List.length_cons] at howned ⊢
    omega
  · dsimp only
    omega
  · intro hstopped
    rw [hrunning] at hstopped
    cases hstopped

theorem work_accounted (h : Accounted limits s ready accepted) (worker : ℕ) :
    ∃ s' ready', s.work worker = .ok s' ∧ Accounted limits s' ready' accepted := by
  unfold work
  split
  · exact ⟨s,ready,rfl,h⟩
  · rename_i hbusy
    simp only [Bool.or_eq_true,decide_eq_true_eq,not_or,Bool.not_eq_true] at hbusy
    obtain ⟨hrunning,hcount⟩ := hbusy
    cases ready with
    | nil => exact absurd h.readyRing.count hcount
    | cons first ready =>
      obtain ⟨s',hdequeue,hs'⟩ := dequeue_accounted h hrunning worker
      exact ⟨s',ready,hdequeue,hs'⟩

/-- The loop finds a free slot and a connection for every one that it moves. -/
theorem drainLoop_accounted (h : Accounted limits s ready accepted) (hrunning : s.stopping = false) :
    ∃ s', s.drainLoop accepted.length = .ok s' ∧ Accounted limits s' ready [] := by
  classical
  induction accepted generalizing s with
  | nil => exact ⟨s,rfl,h⟩
  | cons first accepted ih =>
    obtain ⟨socket,connection⟩ := first
    obtain ⟨ring,hpop,hholds,hsize⟩ := h.acceptedRing.pop
    obtain ⟨howned,hlimit,hdropped,horder⟩ := h.owned hrunning
    have henabled : limits.admission.isSome = true := by
      by_contra hdisabled
      exact absurd (h.unadmitted (by simpa using hdisabled)) (List.cons_ne_nil _ _)
    rw [List.length_cons,drainLoop]
    cases hfree : s.admissions.findIdx? Option.isNone with
    | none =>
      have hfull := slotSockets_full hfree
      rw [h.sized.admissions,if_pos henabled] at hfull
      rw [heldSockets_length,List.length_cons] at howned
      omega
    | some freeSlot =>
      have hset := @slotSockets_set ι _ _ _ _ (some (socket,AdmissionEntry.start connection)) (slotSockets_free hfree)
      dsimp only
      rw [hpop]
      dsimp only
      refine ih ⟨⟨h.sized.ready,hsize.trans h.sized.accepted,by simpa using h.sized.admissions⟩,h.readyRing,hholds,?_,
        fun _ => ⟨?_,hlimit,hdropped,horder⟩,?_,h.order,?_⟩ hrunning
      · apply balance_of_count h.balance
        intro c
        have hcount := List.perm_iff_count.mp hset c
        simp only [slotSocket,Option.map_none,Option.toList_none,Option.map_some,Option.toList_some,List.nil_append,
          List.count_append,List.count_cons,List.count_nil] at hcount
        simp only [heldSockets,List.map_cons,List.count_append,List.count_cons]
        omega
      · have hlength := hset.length_eq
        rw [heldSockets_length,List.length_cons] at howned
        rw [heldSockets_length]
        simp [slotSocket] at hlength
        dsimp only
        omega
      · intro hstopped
        rw [hrunning] at hstopped
        cases hstopped
      · intro hdisabled
        rw [hdisabled] at henabled
        cases henabled

theorem drainAccepted_accounted (h : Accounted limits s ready accepted) :
    ∃ s' accepted', s.drainAccepted = .ok s' ∧ Accounted limits s' ready accepted' := by
  unfold drainAccepted
  split
  · exact ⟨s,accepted,rfl,h⟩
  · rename_i hstopping
    rw [h.acceptedRing.count]
    obtain ⟨s',hdrain,hs'⟩ := drainLoop_accounted h (by simpa using hstopping)
    exact ⟨s',[],hdrain,hs'⟩

/-- A step that moves sockets between the slots and the connection on its way keeps the account. -/
theorem moved_accounted {t : Dispatcher ι} (h : Accounted limits s ready accepted) (hready : t.ready = s.ready)
    (haccepted : t.accepted = s.accepted) (hlength : t.admissions.length = s.admissions.length)
    (howned : t.ownedCount = s.ownedCount) (hstopping : t.stopping = s.stopping) (hhistory : t.history = s.history)
    (hmoved : (slotSockets t.admissions ++ slotSocket t.promoting).Perm
      (slotSockets s.admissions ++ slotSocket s.promoting)) : Accounted limits t ready accepted := by
  have hheld : (heldSockets ready accepted t).Perm (heldSockets ready accepted s) := by
    rw [heldSockets,heldSockets,List.append_assoc _ (slotSockets t.admissions),
      List.append_assoc _ (slotSockets s.admissions)]
    exact hmoved.append_left _
  obtain ⟨⟨hsize,hsize',hslots⟩,hring,hring',hbalance,hcounted,hstopped,horder,hunadmitted⟩ := h
  refine ⟨⟨by rwa [hready],by rwa [haccepted],by rwa [hlength]⟩,by rwa [hready],by rwa [haccepted],?_,?_,
    by rwa [hstopping],by rwa [hhistory],hunadmitted⟩
  · rw [hhistory]
    exact hbalance.trans ((hheld.symm.append_left _).append_right _)
  · rw [hstopping,howned,hhistory,hheld.length_eq]
    exact hcounted

theorem admit_accounted (h : Accounted limits s ready accepted) (hidle : s.promoting = none) (index : ℕ)
    (event : AdmissionEvent) : Accounted limits (s.inspect limits index event) ready accepted := by
  unfold inspect
  split
  · rename_i options socket entry _ hslot
    split
    · rename_i grown _
      have hset := @slotSockets_set ι _ _ _ _ (some (socket,grown)) hslot
      refine moved_accounted h rfl rfl (by simp) rfl rfl rfl ?_
      exact ((List.perm_append_left_iff _).mp hset).append_right _
    · rename_i reason connection _
      have hset := @slotSockets_set ι _ _ _ _ none hslot
      refine moved_accounted h rfl rfl (by simp) rfl rfl rfl ?_
      rw [hidle]
      apply (List.perm_append_comm.trans hset).trans
      exact List.perm_append_comm
  · exact h

theorem publish_accounted (h : Accounted limits s ready accepted) :
    ∃ ready', Accounted limits s.publish ready' accepted := by
  classical
  unfold publish
  split
  · exact ⟨ready,h⟩
  · rename_i socket connection hpromoting
    dsimp only
    split
    · rename_i hstopped
      obtain ⟨rfl,rfl⟩ := h.stopped hstopped
      refine ⟨[],⟨h.sized.ready,h.sized.accepted,h.sized.admissions⟩,h.readyRing,h.acceptedRing,?_,?_,
        fun _ => ⟨rfl,rfl⟩,h.order,fun _ => rfl⟩
      · apply balance_of_count h.balance
        intro c
        simp only [heldSockets,hpromoting,slotSocket,Option.map_none,Option.toList_none,Option.map_some,
          Option.toList_some,List.count_append,List.count_cons,List.count_nil]
        omega
      · intro hrunning
        rw [hstopped] at hrunning
        cases hrunning
    · rename_i hrunning
      rw [Bool.not_eq_true] at hrunning
      obtain ⟨howned,hlimit,hdropped,horder⟩ := h.owned hrunning
      refine ⟨_,enqueueReady_accounted ⟨h.sized.ready,h.sized.accepted,h.sized.admissions⟩ h.readyRing h.acceptedRing
        hrunning rfl ?_ ?_ hlimit hdropped horder h.unadmitted⟩
      · apply balance_of_count h.balance
        intro c
        simp only [heldSockets,hpromoting,slotSocket,Option.map_none,Option.toList_none,Option.map_some,
          Option.toList_some,List.count_append,List.count_cons,List.count_nil]
        omega
      · rw [heldSockets_length] at howned ⊢
        rw [hpromoting] at howned
        exact howned

theorem leaveAdmission_accounted (h : Accounted limits s ready accepted) (hstopped : s.stopping = true) :
    Accounted limits s.leaveAdmission ready accepted := by
  classical
  refine ⟨⟨h.sized.ready,h.sized.accepted,by simpa [leaveAdmission] using h.sized.admissions⟩,h.readyRing,
    h.acceptedRing,?_,?_,h.stopped,h.order,h.unadmitted⟩
  · apply balance_of_count h.balance
    intro c
    simp only [leaveAdmission,heldSockets,slotSockets_emptied,List.count_append,List.count_nil]
    simp only [slotSockets]
    omega
  · intro hrunning
    rw [show s.leaveAdmission.stopping = s.stopping from rfl,hstopped] at hrunning
    cases hrunning

/-- No step terminates the program, and each keeps the account. -/
theorem step_accounted (h : Accounted limits s ready accepted) (event : DispatchStep ι) :
    ∃ s' ready' accepted', s.step limits event = .ok s' ∧ Accounted limits s' ready' accepted' := by
  have hsame : ∃ s' ready' accepted', (.ok s : Except Termination (Dispatcher ι)) = .ok s' ∧
      Accounted limits s' ready' accepted' := ⟨s,ready,accepted,rfl,h⟩
  cases event with
  | submit socket connection isOpen cancelled =>
    obtain ⟨ready',accepted',h'⟩ := submit_accounted h socket connection isOpen cancelled
    exact ⟨_,ready',accepted',rfl,h'⟩
  | drainAccepted =>
    unfold step
    dsimp only
    split
    · exact hsame
    · obtain ⟨s',accepted',hdrain,h'⟩ := drainAccepted_accounted h
      exact ⟨s',ready,accepted',hdrain,h'⟩
  | inspect index event =>
    unfold step
    dsimp only
    split
    · exact hsame
    · rename_i hidle
      exact ⟨_,ready,accepted,rfl,admit_accounted h (by simpa using hidle) index event⟩
  | publish =>
    obtain ⟨ready',h'⟩ := publish_accounted h
    exact ⟨_,ready',accepted,rfl,h'⟩
  | leaveAdmission =>
    unfold step
    dsimp only
    split
    · exact hsame
    · rename_i hleft
      simp only [Bool.or_eq_true,Bool.not_eq_true',not_or,Bool.not_eq_false] at hleft
      exact ⟨_,ready,accepted,rfl,leaveAdmission_accounted h hleft.2⟩
  | work worker =>
    unfold step
    dsimp only
    split
    · exact hsame
    · obtain ⟨s',ready',hwork,h'⟩ := work_accounted h worker
      exact ⟨s',ready',accepted,hwork,h'⟩
  | requestStop =>
    obtain ⟨ready',accepted',h'⟩ := requestStop_accounted h
    exact ⟨_,ready',accepted',rfl,h'⟩

theorem run_accounted (limits : DispatcherLimits) (steps : List (DispatchStep ι)) :
    ∃ s ready accepted, run limits steps = .ok s ∧ Accounted limits s ready accepted := by
  have hsteps (steps : List (DispatchStep ι)) (s : Dispatcher ι) (ready accepted : List (ι × TcpConnection))
      (h : Accounted limits s ready accepted) : ∃ s' ready' accepted',
        steps.foldlM (step limits) s = .ok s' ∧ Accounted limits s' ready' accepted' := by
    induction steps generalizing s ready accepted with
    | nil => exact ⟨s,ready,accepted,rfl,h⟩
    | cons event steps ih =>
      obtain ⟨next,ready',accepted',hstep,hnext⟩ := step_accounted h event
      rw [List.foldlM_cons,hstep]
      exact ih next ready' accepted' hnext
  exact hsteps steps (start limits) [] [] (start_accounted limits)

/-- The connections that the dispatcher holds, read off its containers. -/
def held (s : Dispatcher ι) : List ι :=
  slotSockets s.ready.slots ++ slotSockets s.accepted.slots ++ slotSockets s.admissions ++ slotSocket s.promoting

/-- The occupied slots of a ring are `count` positions from its head. -/
def ExactRing {α : Type} (size : ℕ) (ring : Ring α) : Prop :=
  ring.slots.length = size ∧ ring.count ≤ size ∧
    ∀ j < size, (∃ a, ring.slots[j]? = some (some a)) ↔ ∃ i < ring.count, j = (ring.head + i) % size

structure Consistent [DecidableEq ι] (limits : DispatcherLimits) (s : Dispatcher ι) : Prop where
  owned : s.stopping = false → s.ownedCount = s.ready.occupied + s.accepted.occupied +
    (s.admissions.filter Option.isSome).length + (if s.promoting.isSome then 1 else 0) ∧
    s.ownedCount ≤ limits.pendingConnectionLimit
  readyRing : ExactRing limits.pendingConnectionLimit s.ready
  acceptedRing : ExactRing limits.pendingConnectionLimit s.accepted
  handedOnce : ∀ socket, (s.history.handed.map Prod.snd).count socket ≤ s.history.submitted.count socket
  kept : s.stopping = false → s.history.dropped = [] ∧
    s.history.submitted.Perm (s.history.handed.map Prod.snd ++ s.held)
  fifo : s.history.handed.map Prod.snd <+: s.history.enteredReady

theorem slotSockets_length {β : Type} (slots : List (Option (ι × β))) :
    (slotSockets slots).length = (slots.filter Option.isSome).length := by
  induction slots with
  | nil => rfl
  | cons slot slots ih =>
    rw [slotSockets_cons,List.length_append,ih]
    cases slot <;> simp [slotSocket,Nat.add_comm]

theorem exactRing_of_holds {α : Type} {size : ℕ} {ring : Ring α} {queue : List α} (h : ring.Holds queue)
    (hsize : ring.slots.length = size) : ExactRing size ring := by
  refine ⟨hsize,by rw [h.count,← hsize]; exact h.fits,?_⟩
  intro j hj
  rw [← hsize] at hj ⊢
  exact h.occupied_iff hj

theorem held_perm (h : Accounted limits s ready accepted) : (heldSockets ready accepted s).Perm s.held := by
  have hready := h.readyRing.filterMap_perm Prod.fst
  have haccepted := h.acceptedRing.filterMap_perm Prod.fst
  exact ((hready.symm.append haccepted.symm).append_right _).append_right _

theorem consistent_of_accounted [DecidableEq ι] (h : Accounted limits s ready accepted) : Consistent limits s := by
  refine ⟨?_,exactRing_of_holds h.readyRing h.sized.ready,
    exactRing_of_holds h.acceptedRing h.sized.accepted,?_,?_,h.order⟩
  · intro hrunning
    obtain ⟨howned,hlimit,-⟩ := h.owned hrunning
    refine ⟨?_,hlimit⟩
    rw [howned,heldSockets_length,h.readyRing.occupied,h.acceptedRing.occupied,slotSockets_length]
    cases s.promoting <;> rfl
  · intro socket
    have hcount := List.perm_iff_count.mp h.balance socket
    simp only [List.count_append] at hcount
    omega
  · intro hrunning
    obtain ⟨-,-,hdropped,-⟩ := h.owned hrunning
    refine ⟨hdropped,?_⟩
    have hbalance := h.balance
    rw [hdropped,List.append_nil] at hbalance
    exact hbalance.trans ((held_perm h).append_left _)

/-- Whatever the threads do, no run of the dispatcher reaches a terminating branch, and its account
is right after every step. -/
theorem run_consistent [DecidableEq ι] (limits : DispatcherLimits) (steps : List (DispatchStep ι)) :
    ∃ s, run limits steps = .ok s ∧ Consistent limits s := by
  obtain ⟨s,ready,accepted,hrun,h⟩ := run_accounted limits steps
  exact ⟨s,hrun,consistent_of_accounted h⟩

/-- A connection that sends its whole request at once goes through admission to the worker of a server. -/
theorem run_consistent_served : ∃ s, run serverLimits [.submit 7 (.accepted ⟨[],80⟩ 0) true false,.drainAccepted,
      .inspect 0 (.readable 1 (.received [97,13,10,13,10])),.publish,.work 0] = .ok s ∧
    s.history.handed = [(0,7)] ∧ Consistent serverLimits s := by
  obtain ⟨s,hrun,hconsistent⟩ := run_consistent serverLimits [.submit 7 (.accepted ⟨[],80⟩ 0) true false,
    .drainAccepted,.inspect 0 (.readable 1 (.received [97,13,10,13,10])),.publish,.work 0]
  refine ⟨s,hrun,?_,hconsistent⟩
  have hhanded : (run serverLimits [.submit 7 (.accepted ⟨[],80⟩ 0) true false,.drainAccepted,
      .inspect 0 (.readable 1 (.received [97,13,10,13,10])),.publish,.work 0]).toOption.map (·.history.handed) =
        some [(0,7)] := by decide +kernel
  rw [hrun] at hhanded
  exact Option.some.inj hhanded

end Dispatcher
end SpareNode.Network
