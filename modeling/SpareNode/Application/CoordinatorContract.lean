import SpareNode.Application.CoordinatorRuns
import SpareNode.Filesystem.SafePathConfinement

/-! # What the coordinator promises along a run

Claim sets enter the registry by a granted call and leave it once, with the lease object that
owns them at that time. A failed call changes neither the sets nor their count. The sections
of one call, whatever runs between them, together compute `acquire_all`.
-/
namespace SpareNode.Application
open LexicalPath FileTree Filesystem FilesystemResourceCoordinator Concurrency

namespace SharedCoordinator
variable {st st' : SharedCoordinator} {a : Action} {o : Outcome} {drawn : ℕ}
variable {trace : List (Action × Outcome)}

theorem draws_failed {e : FilesystemResourceAccessError} (h : draws (a,.failed e) = true) :
    e.code = .resourceAllocationFailed := by
  cases a with
  | register thread slot allocates moment => exact of_decide_eq_true h
  | _ => cases h

/-- A failed call leaves the sets and their count, and an identifier is lost only with memory. -/
theorem act_failed {e : FilesystemResourceAccessError} (h : act st a = some (st',.failed e)) :
    st'.registry.active = st.registry.active ∧
      st'.registry.activeClaimCount = st.registry.activeClaimCount ∧
      (e.code ≠ .resourceAllocationFailed → st'.registry = st.registry) := by
  rcases act_cases h with ⟨hregistry,-⟩ | ⟨hactive,hcount,-,-,hdraws,-⟩ | ⟨-,-,-,-,-,-,-,-,ho,-⟩ |
    ⟨-,-,-,-,-,-,-,-,ho⟩ | ⟨-,-,-,-,-,-,ho,-⟩
  · rw [hregistry]
    exact ⟨rfl,rfl,fun _ => rfl⟩
  · exact ⟨hactive,hcount,fun hcode => absurd (draws_failed hdraws) hcode⟩
  · cases ho
  · cases ho
  · cases ho

/-- A claim set leaves the registry with the lease object that owns it. -/
theorem act_removes (h : Sound drawn st) (hact : act st a = some (st',o)) {set : ActiveClaimSet}
    (hset : set ∈ st.registry.active) : set ∉ st'.registry.active ↔
      ∃ slot, endedLease a = some slot ∧ st.Owns slot set.identifier := by
  rcases act_cases hact with ⟨hregistry,-,-,-,hended⟩ | ⟨hactive,-,-,-,-,-,hended⟩ |
    ⟨slot,claims,-,-,-,hregistry,-,-,-,hended⟩ | ⟨target,source,lease,hne,hsource,htarget,-⟩ |
    ⟨slot,lease,hlease,hregistry,-,-,-,hended⟩
  · simp [hregistry,hended,hset]
  · simp [hactive,hended,hset]
  · simp [hregistry,hended,hset]
  · rcases htarget with ⟨-,hregistry,hended⟩ | ⟨old,htarget,hregistry,hended⟩
    · simp [hregistry,hended,hset]
    · rw [hregistry,h.mem_release htarget]
      simp [hended,hset]
  · rw [hregistry,h.mem_release hlease]
    simp [hended,hset]

/-- A claim set enters the registry when its lease is granted, under a new identifier. -/
theorem act_adds (h : Sound drawn st) (hact : act st a = some (st',o))
    (hdrawn : drawn + (if draws (a,o) then 1 else 0) < 2 ^ 64) {set : ActiveClaimSet}
    (hset : set ∈ st'.registry.active) (hnew : set ∉ st.registry.active) :
    o = .granted set.identifier ∧ set.identifier = drawn + 1 := by
  rcases act_cases hact with ⟨hregistry,-⟩ | ⟨hactive,-⟩ |
    ⟨slot,claims,-,-,-,hregistry,-,hdraws,ho,-⟩ | ⟨target,source,lease,hne,hsource,htarget,-⟩ |
    ⟨slot,lease,hlease,hregistry,-⟩
  · exact absurd (hregistry ▸ hset) hnew
  · exact absurd (hactive ▸ hset) hnew
  · rw [hregistry] at hset
    rcases List.mem_append.mp hset with hset | hset
    · exact absurd hset hnew
    · rw [List.mem_singleton.mp hset,ho]
      refine ⟨rfl,?_⟩
      simp only [hdraws,↓reduceIte] at hdrawn
      show st.registry.nextIdentifier = drawn + 1
      rw [h.registry.next,Nat.mod_eq_of_lt hdrawn]
  · rcases htarget with ⟨-,hregistry,-⟩ | ⟨old,htarget,hregistry,-⟩
    · exact absurd (hregistry ▸ hset) hnew
    · rw [hregistry,h.mem_release htarget] at hset
      exact absurd hset.1 hnew
  · rw [hregistry,h.mem_release hlease] at hset
    exact absurd hset.1 hnew

theorem act_granted (h : Sound drawn st) {identifier : ℕ}
    (hact : act st a = some (st',.granted identifier))
    (hdrawn : drawn + (if draws (a,Outcome.granted identifier) then 1 else 0) < 2 ^ 64) :
    draws (a,Outcome.granted identifier) = true ∧ identifier = drawn + 1 := by
  rcases act_cases hact with ⟨-,-,-,ho,-⟩ | ⟨-,-,-,-,-,ho,-⟩ | ⟨-,-,-,-,-,-,-,hdraws,ho,-⟩ |
    ⟨-,-,-,-,-,-,-,-,ho⟩ | ⟨-,-,-,-,-,-,ho,-⟩
  · exact absurd rfl (ho identifier)
  · exact absurd rfl (ho identifier)
  · cases ho
    simp only [hdraws,↓reduceIte] at hdrawn
    exact ⟨hdraws,by rw [h.registry.next,Nat.mod_eq_of_lt hdrawn]⟩
  · cases ho
  · cases ho

theorem run_granted {identifier : ℕ} (h : Run initial trace st) (hdrawn : drawnIn trace < 2 ^ 64)
    (hgranted : (a,Outcome.granted identifier) ∈ trace) : identifier ≤ drawnIn trace := by
  induction h with
  | nil => simp at hgranted
  | @snoc trace st st' b o h hact ih =>
    rw [drawnIn_snoc] at hdrawn ⊢
    have hsound := run_sound initial_sound h (by omega)
    rw [Nat.zero_add] at hsound
    rcases List.mem_append.mp hgranted with hgranted | hgranted
    · have := ih (by omega) hgranted
      omega
    · obtain ⟨rfl,rfl⟩ := Prod.mk.inj (List.mem_singleton.mp hgranted)
      obtain ⟨hdraws,hidentifier⟩ := act_granted hsound hact hdrawn
      rw [hdraws,hidentifier]
      simp

/-- An identifier that has left the registry does not come back. -/
theorem run_absent {start : SharedCoordinator} {identifier : ℕ} (hstart : Sound drawn start)
    (h : Run start trace st) (hdrawn : drawn + drawnIn trace < 2 ^ 64) (hle : identifier ≤ drawn)
    (habsent : ∀ set ∈ start.registry.active, set.identifier ≠ identifier) :
    ∀ set ∈ st.registry.active, set.identifier ≠ identifier := by
  induction h with
  | nil => exact habsent
  | @snoc trace st st' b o h hact ih =>
    rw [drawnIn_snoc,← Nat.add_assoc] at hdrawn
    have hsound := run_sound hstart h (by omega)
    intro set hset
    by_cases hold : set ∈ st.registry.active
    · exact ih (by omega) set hold
    · have hnew := (act_adds hsound hact hdrawn hset hold).2
      omega

def Action.thread : Action → Option ℕ
  | .earlyCheck thread .. => some thread
  | .prepare thread .. => some thread
  | .register thread .. => some thread
  | _ => none

theorem act_calls {thread : ℕ} (h : act st a = some (st',o)) (hother : Action.thread a ≠ some thread) :
    st'.calls thread = st.calls thread := by
  cases a with
  | earlyCheck t requests deadline moment =>
    have hne : thread ≠ t := by simpa [Action.thread,eq_comm] using hother
    simp only [act] at h
    split at h
    · cases h
    · split at h <;> cases h <;> simp [hne]
  | prepare t allocates trees moment =>
    have hne : thread ≠ t := by simpa [Action.thread,eq_comm] using hother
    simp only [act] at h
    split at h
    · split at h <;> cases h <;> simp [hne]
    · cases h
  | register t slot allocates moment =>
    have hne : thread ≠ t := by simpa [Action.thread,eq_comm] using hother
    simp only [act] at h
    split at h
    · split at h <;> cases h <;> simp [hne]
    · cases h
  | moveLease target source =>
    simp only [act] at h
    split at h <;> cases h
    rfl
  | assignLease target source =>
    simp only [act] at h
    split at h
    · split at h <;> cases h <;> rfl
    · cases h
  | destroyLease slot =>
    simp only [act] at h
    split at h <;> cases h
    rfl

theorem run_calls {start : SharedCoordinator} {thread : ℕ} (h : Run start trace st)
    (hother : ∀ step ∈ trace, Action.thread step.1 ≠ some thread) :
    st.calls thread = start.calls thread := by
  induction h with
  | nil => rfl
  | @snoc trace st st' a o h hact ih =>
    rw [act_calls hact (hother (a,o) (by simp)),ih (fun step hstep => hother step (by simp [hstep]))]

/-- The sections of a call, with steps of other threads between them, compute `acquire_all`. -/
theorem call_outcome {thread slot : ℕ} {requests : List FilesystemResourceAccessRequest}
    {deadline : Option ℤ} {early middle late : Moment} {preparing registering : Bool}
    {trees : ℕ → Tree} {s₁ s₂ s₃ s₄ s₅ : SharedCoordinator} {trace₁ trace₂ : List (Action × Outcome)}
    (hcheck : act st (.earlyCheck thread requests deadline early) = some (s₁,.done))
    (h₁ : Run s₁ trace₁ s₂) (hother₁ : ∀ step ∈ trace₁, Action.thread step.1 ≠ some thread)
    (hprepare : act s₂ (.prepare thread preparing trees middle) = some (s₃,.done))
    (h₂ : Run s₃ trace₂ s₄) (hother₂ : ∀ step ∈ trace₂, Action.thread step.1 ≠ some thread)
    (hregister : act s₄ (.register thread slot registering late) = some (s₅,o)) :
    s₅.registry = (acquireAll early middle late preparing registering trees deadline requests
      st.registry s₄.registry).2 ∧
    ∀ identifier, o = .granted identifier ↔ (acquireAll early middle late preparing registering trees
      deadline requests st.registry s₄.registry).1 = .ok identifier := by
  have hadmitted : FilesystemResourceCoordinator.earlyCheck early deadline requests st.registry = .ok () ∧
      s₁.calls thread = some (.admitted requests deadline) := by
    simp only [act] at hcheck
    split at hcheck
    · cases hcheck
    · split at hcheck <;> cases hcheck
      rename_i hok
      exact ⟨hok,by simp⟩
  have hcall₁ : s₂.calls thread = some (.admitted requests deadline) := by
    rw [run_calls h₁ hother₁,hadmitted.2]
  obtain ⟨claims,hclaims,hprepared⟩ : ∃ claims,
      FilesystemResourceCoordinator.prepare preparing trees middle deadline requests = .ok claims ∧
      s₃.calls thread = some (.prepared claims deadline) := by
    simp only [act,hcall₁] at hprepare
    split at hprepare <;> cases hprepare
    rename_i claims hok
    exact ⟨claims,hok,by simp⟩
  have hcall₂ : s₄.calls thread = some (.prepared claims deadline) := by
    rw [run_calls h₂ hother₂,hprepared]
  unfold acquireAll
  rw [hadmitted.1]
  dsimp only
  rw [hclaims]
  dsimp only
  simp only [act,hcall₂] at hregister
  split at hregister
  · rename_i claims' deadline' hcall hslot
    cases hcall
    split at hregister
    · rename_i e registry hregistry
      cases hregister
      rw [hregistry]
      simp
    · rename_i identifier registry hregistry
      cases hregister
      rw [hregistry]
      simp
  · cases hregister

/-- What holds of the state that a run has reached, and of what may follow. -/
structure Contract (trace : List (Action × Outcome)) (st : SharedCoordinator) : Prop where
  identifiers : ∀ set ∈ st.registry.active, set.identifier ≠ 0
  distinct : (st.registry.active.map ActiveClaimSet.identifier).Nodup
  counted : st.registry.activeClaimCount =
    (st.registry.active.map (fun set => set.claims.length)).sum
  bounded : st.registry.activeClaimCount ≤ maximumActiveClaims
  capacity : remainingClaims st.registry = maximumActiveClaims - st.registry.activeClaimCount
  subtraction : ∀ set ∈ st.registry.active, set.claims.length ≤ st.registry.activeClaimCount
  separate : ∀ set ∈ st.registry.active, ∀ other ∈ st.registry.active, set ≠ other →
    ∀ c ∈ set.claims, ∀ d ∈ other.claims, c.root = d.root →
      (c.components <+: d.components ∨ d.components <+: c.components) →
      c.mode = .sharedRead ∧ d.mode = .sharedRead
  owner : ∀ set ∈ st.registry.active, ∃! slot, st.Owns slot set.identifier
  failure : ∀ a st' e, act st a = some (st',.failed e) →
    st'.registry.active = st.registry.active ∧
      st'.registry.activeClaimCount = st.registry.activeClaimCount ∧
      (e.code ≠ .resourceAllocationFailed → st'.registry = st.registry)
  success : ∀ requests deadline early middle late preparing registering trees trace' st',
    Run st trace' st' → drawnIn trace + drawnIn trace' < 2 ^ 64 →
    ((∃ identifier, (acquireAll early middle late preparing registering trees deadline requests
      st.registry st'.registry).1 = .ok identifier) ↔
      requests ≠ [] ∧ interruptionStatus early deadline = .none ∧
      interruptionStatus middle deadline = .none ∧ interruptionStatus late deadline = .none ∧
      st.registry.activeClaimCount + requests.length ≤ maximumActiveClaims ∧
      st'.registry.activeClaimCount + requests.length ≤ maximumActiveClaims ∧
      (∃ claims, makeClaims trees requests = .ok claims ∧
        ∀ set ∈ st'.registry.active, ∀ c ∈ set.claims, ∀ d ∈ claims, conflicts c d = false) ∧
      preparing = true ∧ registering = true)
  calls : ∀ thread slot requests deadline early middle late preparing registering trees
    s₁ trace₁ s₂ s₃ trace₂ s₄ s₅ o,
    act st (.earlyCheck thread requests deadline early) = some (s₁,.done) →
    Run s₁ trace₁ s₂ → (∀ step ∈ trace₁, Action.thread step.1 ≠ some thread) →
    act s₂ (.prepare thread preparing trees middle) = some (s₃,.done) →
    Run s₃ trace₂ s₄ → (∀ step ∈ trace₂, Action.thread step.1 ≠ some thread) →
    act s₄ (.register thread slot registering late) = some (s₅,o) →
    s₅.registry = (acquireAll early middle late preparing registering trees deadline requests
      st.registry s₄.registry).2 ∧
    ∀ identifier, o = .granted identifier ↔ (acquireAll early middle late preparing registering trees
      deadline requests st.registry s₄.registry).1 = .ok identifier
  removed : ∀ a st' o, act st a = some (st',o) → ∀ set ∈ st.registry.active,
    (set ∉ st'.registry.active ↔ ∃ slot, endedLease a = some slot ∧ st.Owns slot set.identifier)
  once : ∀ trace' st', Run st trace' st' → drawnIn trace + drawnIn trace' < 2 ^ 64 →
    ∀ a identifier, (a,Outcome.granted identifier) ∈ trace →
      (∀ set ∈ st.registry.active, set.identifier ≠ identifier) →
      ∀ set ∈ st'.registry.active, set.identifier ≠ identifier
  movedFrom : ∀ target source st' o, target ≠ source →
    (act st (.moveLease target source) = some (st',o) ∨
      act st (.assignLease target source) = some (st',o)) →
    ∃ lease, st'.leases source = some lease ∧ lease.release st'.registry = st'.registry

theorem Sound.subtraction (h : Sound drawn st) {set : ActiveClaimSet}
    (hset : set ∈ st.registry.active) : set.claims.length ≤ st.registry.activeClaimCount := by
  rw [h.registry.counted]
  exact List.single_le_sum (by simp) _ (List.mem_map_of_mem hset)

theorem moved_releases_nothing {target source : ℕ} (hne : target ≠ source)
    (h : act st (.moveLease target source) = some (st',o) ∨
      act st (.assignLease target source) = some (st',o)) :
    ∃ lease, st'.leases source = some lease ∧ lease.release st'.registry = st'.registry := by
  have hempty : st'.leases source = some .empty := by
    rcases h with h | h
    · simp only [act] at h
      split at h <;> cases h
      simp [hne.symm]
    · simp only [act] at h
      split at h
      · rw [if_neg hne] at h
        cases h
        simp [hne.symm]
      · cases h
  exact ⟨.empty,hempty,rfl⟩

/-- Along every run that does not exhaust the identifiers the coordinator keeps its contract. -/
theorem coordinator_contract (trace : List (Action × Outcome)) (st : SharedCoordinator)
    (h : Run initial trace st) (hdrawn : drawnIn trace < 2 ^ 64) : Contract trace st := by
  have hsound : Sound (drawnIn trace) st := by
    have hrun := run_sound initial_sound h (by omega)
    rwa [Nat.zero_add] at hrun
  refine ⟨fun set hset => (hsound.registry.identifiers set hset).1.ne',hsound.registry.distinct,
    hsound.registry.counted,hsound.registry.bounded,hsound.registry.remainingClaims,
    fun set hset => hsound.subtraction hset,?_,?_,fun a st' e => act_failed,?_,?_,
    fun a st' o hact set hset => act_removes hsound hact hset,?_,
    fun target source st' o hne hact => moved_releases_nothing hne hact⟩
  · intro set hset other hother hne c hc d hd hroot hrelated
    exact hsound.sharedReads hset hother hne hc hd hroot hrelated
  · intro set hset
    obtain ⟨slot,hslot⟩ := hsound.owned set hset
    exact ⟨slot,hslot,fun other hother => hsound.unique _ _ _ hother hslot⟩
  · intro requests deadline early middle late preparing registering trees trace' st' hrun hlate
    exact acquireAll_eq_ok_iff hsound.registry (run_sound hsound hrun hlate).registry
  · intro thread slot requests deadline early middle late preparing registering trees
      s₁ trace₁ s₂ s₃ trace₂ s₄ s₅ o hcheck h₁ hother₁ hprepare h₂ hother₂ hregister
    exact call_outcome hcheck h₁ hother₁ hprepare h₂ hother₂ hregister
  · intro trace' st' hrun hlate a identifier hgranted habsent
    exact run_absent hsound hrun hlate (run_granted h hdrawn hgranted) habsent

def undisturbed : Moment := ⟨false,0⟩

def docsRequest (mode : FilesystemResourceAccessMode) : FilesystemResourceAccessRequest :=
  ⟨some linkedRoot,ascii "link",mode⟩

theorem docsRequest_claims : makeClaims (fun _ => linkedTree) [docsRequest .exclusiveMutation] =
    .ok [⟨linkedRoot.path,[ascii "docs"],.exclusiveMutation⟩] := by
  decide +kernel

/-- One call is granted a lease, which is moved before the first object is destroyed. -/
theorem coordinator_contract_moved : ∃ trace st, Run initial trace st ∧ drawnIn trace = 1 ∧
    st.registry.active = [⟨1,[⟨linkedRoot.path,[ascii "docs"],.exclusiveMutation⟩]⟩] ∧
    st.Owns 1 1 ∧ Contract trace st := by
  have hprepare : FilesystemResourceCoordinator.prepare true (fun _ => linkedTree) undisturbed none
      [docsRequest .exclusiveMutation] =
        .ok [⟨linkedRoot.path,[ascii "docs"],.exclusiveMutation⟩] :=
    prepare_eq_ok_iff.mpr ⟨rfl,rfl,_,docsRequest_claims,by simp [sortClaims]⟩
  have hregister : FilesystemResourceCoordinator.register true undisturbed none
      [⟨linkedRoot.path,[ascii "docs"],.exclusiveMutation⟩] create =
        (.ok 1,⟨[⟨1,[⟨linkedRoot.path,[ascii "docs"],.exclusiveMutation⟩]⟩],1,2⟩) := by
    decide +kernel
  have hcheck : FilesystemResourceCoordinator.earlyCheck undisturbed none [docsRequest .exclusiveMutation]
      initial.registry = .ok () := rfl
  have hcall := @run_call initial initial [] Run.nil 0 0 1 none _ _ _ undisturbed undisturbed
    undisturbed _ rfl rfl hcheck hprepare hregister
  have hmove := hcall.snoc (a := .moveLease 1 0) rfl
  have hrun := hmove.snoc (a := .destroyLease 0) rfl
  exact ⟨_,_,hrun,by decide,rfl,rfl,coordinator_contract _ _ hrun (by decide)⟩

/-- Nothing that could refuse the request arises, but memory runs out while it is resolved. -/
theorem acquireAll_out_of_memory :
    ¬∀ preparing registering requests trees, (∃ identifier,
      (acquireAll undisturbed undisturbed undisturbed preparing registering trees none requests
        create create).1 = .ok identifier) ↔
      requests ≠ [] ∧ create.activeClaimCount + requests.length ≤ maximumActiveClaims ∧
      ∃ claims, makeClaims trees requests = .ok claims ∧
        ∀ set ∈ create.active, ∀ c ∈ set.claims, ∀ d ∈ claims, conflicts c d = false := by
  intro hall
  obtain ⟨identifier,hok⟩ := (hall false true [docsRequest .exclusiveMutation] (fun _ => linkedTree)).mpr
    ⟨by simp,by decide,_,docsRequest_claims,by simp [create]⟩
  cases hok

end SharedCoordinator
end SpareNode.Application
