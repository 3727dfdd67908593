import Mathlib.Logic.Function.Basic
import SpareNode.Application.FilesystemResourceCoordinator

/-! # Runs of the resource coordinator

Any number of threads call `acquire_all`, and the leases they are granted are moved, assigned
and destroyed, in any order and between the sections of each other's calls. The registry
holds one claim set for each lease that owns one, and no two sets conflict.
-/
namespace SpareNode.Application
open LexicalPath FileTree Filesystem FilesystemResourceCoordinator Concurrency

structure FilesystemResourceLease where
  attached : Bool
  identifier : ℕ
deriving DecidableEq, Repr

def FilesystemResourceLease.empty : FilesystemResourceLease := ⟨false,0⟩

def FilesystemResourceLease.release (lease : FilesystemResourceLease)
    (st : FilesystemResourceCoordinatorState) : FilesystemResourceCoordinatorState :=
  if !lease.attached || lease.identifier = 0 then st
  else FilesystemResourceCoordinator.release lease.identifier st

/-- A call of `acquire_all` between two of its sections. -/
inductive Call where
  | admitted (requests : List FilesystemResourceAccessRequest) (deadline : Option ℤ)
  | prepared (claims : List ResourceClaim) (deadline : Option ℤ)

/-- The registry, the lease objects and the calls of the threads. -/
structure SharedCoordinator where
  registry : FilesystemResourceCoordinatorState
  leases : ℕ → Option FilesystemResourceLease
  calls : ℕ → Option Call

inductive Action where
  | earlyCheck (thread : ℕ) (requests : List FilesystemResourceAccessRequest) (deadline : Option ℤ)
      (moment : Moment)
  | prepare (thread : ℕ) (allocates : Bool) (trees : ℕ → Tree) (moment : Moment)
  | register (thread slot : ℕ) (allocates : Bool) (moment : Moment)
  | moveLease (target source : ℕ)
  | assignLease (target source : ℕ)
  | destroyLease (slot : ℕ)

inductive Outcome where
  | done
  | failed (error : FilesystemResourceAccessError)
  | granted (identifier : ℕ)

namespace SharedCoordinator

def initial : SharedCoordinator := ⟨create,fun _ => none,fun _ => none⟩

def act (st : SharedCoordinator) : Action → Option (SharedCoordinator × Outcome)
  | .earlyCheck thread requests deadline moment =>
    match st.calls thread with
    | some _ => none
    | none =>
      match earlyCheck moment deadline requests st.registry with
      | .error e => some (st,.failed e)
      | .ok () => some ({ st with
          calls := Function.update st.calls thread (some (.admitted requests deadline)) },.done)
  | .prepare thread allocates trees moment =>
    match st.calls thread with
    | some (.admitted requests deadline) =>
      match prepare allocates trees moment deadline requests with
      | .error e => some ({ st with calls := Function.update st.calls thread none },.failed e)
      | .ok claims => some ({ st with
          calls := Function.update st.calls thread (some (.prepared claims deadline)) },.done)
    | _ => none
  | .register thread slot allocates moment =>
    match st.calls thread,st.leases slot with
    | some (.prepared claims deadline),none =>
      match register allocates moment deadline claims st.registry with
      | (.error e,registry) =>
        some ({ st with registry := registry, calls := Function.update st.calls thread none },.failed e)
      | (.ok identifier,registry) =>
        some (⟨registry,Function.update st.leases slot (some ⟨true,identifier⟩),
          Function.update st.calls thread none⟩,.granted identifier)
    | _,_ => none
  | .moveLease target source =>
    match st.leases source,st.leases target with
    | some lease,none => some ({ st with
        leases := Function.update (Function.update st.leases source (some .empty)) target (some lease) },.done)
    | _,_ => none
  | .assignLease target source =>
    match st.leases source,st.leases target with
    | some lease,some old =>
      if target = source then some (st,.done)
      else some ({ st with
        registry := old.release st.registry
        leases := Function.update (Function.update st.leases source (some .empty)) target (some lease) },.done)
    | _,_ => none
  | .destroyLease slot =>
    match st.leases slot with
    | some lease => some ({ st with
        registry := lease.release st.registry, leases := Function.update st.leases slot none },.done)
    | none => none

/-- The states that a sequence of actions with their outcomes leads to. -/
inductive Run (start : SharedCoordinator) : List (Action × Outcome) → SharedCoordinator → Prop
  | nil : Run start [] start
  | snoc {trace : List (Action × Outcome)} {st st' : SharedCoordinator} {a : Action} {o : Outcome}
      (h : Run start trace st) (hact : act st a = some (st',o)) : Run start (trace ++ [(a,o)]) st'

/-- A step that has drawn an identifier, for a lease or in vain. -/
def draws : Action × Outcome → Bool
  | (.register ..,.granted _) => true
  | (.register ..,.failed e) => e.code = .resourceAllocationFailed
  | _ => false

def Owns (st : SharedCoordinator) (slot identifier : ℕ) : Prop :=
  st.leases slot = some ⟨true,identifier⟩

/-- The lease object whose ownership an action ends, by destroying or overwriting it. -/
def endedLease : Action → Option ℕ
  | .destroyLease slot => some slot
  | .assignLease target source => if target = source then none else some target
  | _ => none

variable {st st' : SharedCoordinator} {a : Action} {o : Outcome} {drawn : ℕ}

/-- What a step can do to the registry and to the lease objects. -/
theorem act_cases (h : act st a = some (st',o)) :
    (st'.registry = st.registry ∧ st'.leases = st.leases ∧ draws (a,o) = false ∧
      (∀ identifier, o ≠ .granted identifier) ∧ endedLease a = none) ∨
    (st'.registry.active = st.registry.active ∧
      st'.registry.activeClaimCount = st.registry.activeClaimCount ∧
      st'.registry.nextIdentifier = (st.registry.nextIdentifier + 1) % 2 ^ 64 ∧
      st'.leases = st.leases ∧ draws (a,o) = true ∧ (∀ identifier, o ≠ .granted identifier) ∧
      endedLease a = none) ∨
    (∃ slot claims, st.leases slot = none ∧ claims.length ≤ remainingClaims st.registry ∧
      conflictsWithActive st.registry.active claims = false ∧
      st'.registry = ⟨st.registry.active ++ [⟨st.registry.nextIdentifier,claims⟩],
        (st.registry.activeClaimCount + claims.length) % 2 ^ 64,
        (st.registry.nextIdentifier + 1) % 2 ^ 64⟩ ∧
      st'.leases = Function.update st.leases slot (some ⟨true,st.registry.nextIdentifier⟩) ∧
      draws (a,o) = true ∧ o = .granted st.registry.nextIdentifier ∧ endedLease a = none) ∨
    (∃ target source lease, target ≠ source ∧ st.leases source = some lease ∧
      (st.leases target = none ∧ st'.registry = st.registry ∧ endedLease a = none ∨
        ∃ old, st.leases target = some old ∧ st'.registry = old.release st.registry ∧
          endedLease a = some target) ∧
      st'.leases = Function.update (Function.update st.leases source (some .empty)) target (some lease) ∧
      draws (a,o) = false ∧ o = .done) ∨
    (∃ slot lease, st.leases slot = some lease ∧ st'.registry = lease.release st.registry ∧
      st'.leases = Function.update st.leases slot none ∧ draws (a,o) = false ∧ o = .done ∧
      endedLease a = some slot) := by
  cases a with
  | earlyCheck thread requests deadline moment =>
    left
    simp only [act] at h
    split at h
    · cases h
    · split at h <;> cases h <;> simp [draws,endedLease]
  | prepare thread allocates trees moment =>
    left
    simp only [act] at h
    split at h
    · split at h <;> cases h <;> simp [draws,endedLease]
    · cases h
  | register thread slot allocates moment =>
    simp only [act] at h
    split at h
    · rename_i claims deadline hcall hslot
      split at h
      · rename_i e registry hregister
        cases h
        rcases register_cases hregister with ⟨e',he,hactive,hcount,⟨hcode,rfl⟩ | ⟨hcode,hnext⟩⟩ | ⟨he,-⟩
        · cases he
          exact Or.inl ⟨rfl,rfl,by simp [draws,hcode],by simp,rfl⟩
        · cases he
          exact Or.inr (Or.inl ⟨hactive,hcount,hnext,rfl,by simp [draws,hcode],by simp,rfl⟩)
        · cases he
      · rename_i identifier registry hregister
        cases h
        rcases register_cases hregister with ⟨e',he,-⟩ | ⟨he,hlength,hconflict,hregistry⟩
        · cases he
        · cases he
          exact Or.inr (Or.inr (Or.inl ⟨slot,claims,hslot,hlength,hconflict,hregistry,rfl,rfl,rfl,rfl⟩))
    · cases h
  | moveLease target source =>
    simp only [act] at h
    split at h
    · rename_i lease hsource htarget
      cases h
      have hne : target ≠ source := by
        rintro rfl
        rw [hsource] at htarget
        cases htarget
      exact Or.inr (Or.inr (Or.inr (Or.inl
        ⟨target,source,lease,hne,hsource,Or.inl ⟨htarget,rfl,rfl⟩,rfl,rfl,rfl⟩)))
    · cases h
  | assignLease target source =>
    simp only [act] at h
    split at h
    · rename_i lease old hsource htarget
      split at h
      · rename_i hsame
        cases h
        exact Or.inl ⟨rfl,rfl,rfl,by simp,by simp [endedLease,hsame]⟩
      · rename_i hne
        cases h
        exact Or.inr (Or.inr (Or.inr (Or.inl ⟨target,source,lease,hne,hsource,
          Or.inr ⟨old,htarget,rfl,by simp [endedLease,hne]⟩,rfl,rfl,rfl⟩)))
    · cases h
  | destroyLease slot =>
    simp only [act] at h
    split at h
    · rename_i lease hlease
      cases h
      exact Or.inr (Or.inr (Or.inr (Or.inr ⟨slot,lease,hlease,rfl,rfl,rfl,rfl,rfl⟩)))
    · cases h

/-- The registry is valid and its claim sets are those of the owning lease objects. -/
structure Sound (drawn : ℕ) (st : SharedCoordinator) : Prop where
  registry : Valid drawn st.registry
  owned : ∀ set ∈ st.registry.active, ∃ slot, st.Owns slot set.identifier
  live : ∀ slot identifier, st.Owns slot identifier →
    ∃ set ∈ st.registry.active, set.identifier = identifier
  unique : ∀ slot slot' identifier, st.Owns slot identifier → st.Owns slot' identifier → slot = slot'

theorem initial_sound : Sound 0 initial :=
  ⟨create_valid,by simp [initial,create],by simp [initial,Owns],by simp [initial,Owns]⟩

/-- Soundness rests on the active sets and the lease objects only. -/
theorem Sound.congr {drawn' : ℕ} (h : Sound drawn st) (hvalid : Valid drawn' st'.registry)
    (hactive : st'.registry.active = st.registry.active) (hleases : st'.leases = st.leases) :
    Sound drawn' st' := by
  have howns : ∀ {slot identifier}, st'.Owns slot identifier ↔ st.Owns slot identifier := by
    intro slot identifier
    unfold Owns
    rw [hleases]
  refine ⟨hvalid,?_,?_,?_⟩
  · intro set hset
    obtain ⟨slot,hslot⟩ := h.owned set (hactive ▸ hset)
    exact ⟨slot,howns.mpr hslot⟩
  · intro slot identifier hslot
    rw [hactive]
    exact h.live slot identifier (howns.mp hslot)
  · intro slot slot' identifier hslot hslot'
    exact h.unique slot slot' identifier (howns.mp hslot) (howns.mp hslot')

theorem Sound.identifier_pos (h : Sound drawn st) {slot identifier : ℕ} (howns : st.Owns slot identifier) :
    0 < identifier := by
  obtain ⟨set,hset,rfl⟩ := h.live slot identifier howns
  exact (h.registry.identifiers set hset).1

/-- A lease that ends takes with it the claim set it owns, and nothing else. -/
theorem Sound.mem_release (h : Sound drawn st) {slot : ℕ} {lease : FilesystemResourceLease}
    (hlease : st.leases slot = some lease) (set : ActiveClaimSet) :
    set ∈ (lease.release st.registry).active ↔
      set ∈ st.registry.active ∧ ¬st.Owns slot set.identifier := by
  obtain ⟨attached,identifier⟩ := lease
  cases attached with
  | false => simp [FilesystemResourceLease.release,Owns,hlease]
  | true =>
    have hpos := h.identifier_pos hlease
    have hrelease : FilesystemResourceLease.release ⟨true,identifier⟩ st.registry =
        FilesystemResourceCoordinator.release identifier st.registry := by
      simp [FilesystemResourceLease.release,hpos.ne']
    rw [hrelease,(h.registry.release identifier).2]
    simp [Owns,hlease,eq_comm]

theorem Sound.ended (h : Sound drawn st) {slot : ℕ} {lease : FilesystemResourceLease}
    (hlease : st.leases slot = some lease) (calls : ℕ → Option Call) :
    Sound drawn ⟨lease.release st.registry,Function.update st.leases slot none,calls⟩ := by
  have hmem := h.mem_release hlease
  have howns : ∀ {other identifier}, Owns
      ⟨lease.release st.registry,Function.update st.leases slot none,calls⟩ other identifier ↔
      other ≠ slot ∧ st.Owns other identifier := by
    intro other identifier
    unfold Owns
    by_cases hother : other = slot
    · simp [hother]
    · simp [hother]
  refine ⟨?_,?_,?_,?_⟩
  · unfold FilesystemResourceLease.release
    split
    · exact h.registry
    · exact (h.registry.release _).1
  · intro set hset
    obtain ⟨hset,hnot⟩ := (hmem set).mp hset
    obtain ⟨other,hother⟩ := h.owned set hset
    exact ⟨other,howns.mpr ⟨fun heq => hnot (heq ▸ hother),hother⟩⟩
  · intro other identifier hother
    obtain ⟨hne,hother⟩ := howns.mp hother
    obtain ⟨set,hset,rfl⟩ := h.live other identifier hother
    exact ⟨set,(hmem set).mpr ⟨hset,fun hslot => hne (h.unique _ _ _ hother hslot)⟩,rfl⟩
  · intro slot₁ slot₂ identifier h₁ h₂
    exact h.unique _ _ _ (howns.mp h₁).2 (howns.mp h₂).2

theorem Sound.moved (h : Sound drawn st) {target source : ℕ} {lease : FilesystemResourceLease}
    (hsource : st.leases source = some lease) (htarget : st.leases target = none)
    (calls : ℕ → Option Call) :
    Sound drawn ⟨st.registry,
      Function.update (Function.update st.leases source (some .empty)) target (some lease),calls⟩ := by
  have hne : source ≠ target := by
    rintro rfl
    rw [hsource] at htarget
    cases htarget
  have howns : ∀ {other identifier}, Owns ⟨st.registry,
      Function.update (Function.update st.leases source (some .empty)) target (some lease),calls⟩
      other identifier ↔ other = target ∧ st.Owns source identifier ∨
        other ≠ target ∧ other ≠ source ∧ st.Owns other identifier := by
    intro other identifier
    unfold Owns
    by_cases hother : other = target
    · simp [hother,hsource]
    · by_cases hother' : other = source
      · simp [hother',hne,FilesystemResourceLease.empty]
      · simp [hother,hother']
  refine ⟨h.registry,?_,?_,?_⟩
  · intro set hset
    obtain ⟨other,hother⟩ := h.owned set hset
    by_cases heq : other = source
    · exact ⟨target,howns.mpr (Or.inl ⟨rfl,heq ▸ hother⟩)⟩
    · have hother' : other ≠ target := by
        rintro rfl
        unfold Owns at hother
        rw [htarget] at hother
        cases hother
      exact ⟨other,howns.mpr (Or.inr ⟨hother',heq,hother⟩)⟩
  · intro other identifier hother
    rcases howns.mp hother with ⟨-,hother⟩ | ⟨-,-,hother⟩
    · exact h.live _ _ hother
    · exact h.live _ _ hother
  · intro slot₁ slot₂ identifier h₁ h₂
    rcases howns.mp h₁ with ⟨ht₁,ho₁⟩ | ⟨-,hs₁,ho₁⟩
    · rcases howns.mp h₂ with ⟨ht₂,-⟩ | ⟨-,hs₂,ho₂⟩
      · rw [ht₁,ht₂]
      · exact absurd (h.unique _ _ _ ho₂ ho₁) hs₂
    · rcases howns.mp h₂ with ⟨-,ho₂⟩ | ⟨-,-,ho₂⟩
      · exact absurd (h.unique _ _ _ ho₁ ho₂) hs₁
      · exact h.unique _ _ _ ho₁ ho₂

/-- A granted lease owns the set that was registered for it. -/
theorem Sound.granted (h : Sound drawn st) (hdrawn : drawn + 1 < 2 ^ 64) {slot : ℕ}
    {claims : List ResourceClaim} (hslot : st.leases slot = none)
    (hlength : claims.length ≤ remainingClaims st.registry)
    (hconflict : conflictsWithActive st.registry.active claims = false)
    (hregistry : st'.registry = ⟨st.registry.active ++ [⟨st.registry.nextIdentifier,claims⟩],
      (st.registry.activeClaimCount + claims.length) % 2 ^ 64,
      (st.registry.nextIdentifier + 1) % 2 ^ 64⟩)
    (hleases : st'.leases =
      Function.update st.leases slot (some ⟨true,st.registry.nextIdentifier⟩)) :
    Sound (drawn + 1) st' := by
  have hnext : st.registry.nextIdentifier = drawn + 1 := by
    rw [h.registry.next,Nat.mod_eq_of_lt hdrawn]
  have howns : ∀ {other identifier}, st'.Owns other identifier ↔
      other = slot ∧ identifier = drawn + 1 ∨ other ≠ slot ∧ st.Owns other identifier := by
    intro other identifier
    unfold Owns
    rw [hleases,hnext]
    by_cases hother : other = slot
    · simp [hother,eq_comm]
    · simp [hother]
  have hle : ∀ {other identifier}, st.Owns other identifier → identifier ≤ drawn := by
    intro other identifier hother
    obtain ⟨set,hset,rfl⟩ := h.live other identifier hother
    exact (h.registry.identifiers set hset).2
  refine ⟨hregistry ▸ h.registry.granted hdrawn hlength hconflict,?_,?_,?_⟩
  · intro set hset
    rw [hregistry] at hset
    rcases List.mem_append.mp hset with hset | hset
    · obtain ⟨other,hother⟩ := h.owned set hset
      have hne : other ≠ slot := by
        rintro rfl
        unfold Owns at hother
        rw [hslot] at hother
        cases hother
      exact ⟨other,howns.mpr (Or.inr ⟨hne,hother⟩)⟩
    · rw [List.mem_singleton.mp hset]
      exact ⟨slot,howns.mpr (Or.inl ⟨rfl,hnext⟩)⟩
  · intro other identifier hother
    rw [hregistry]
    rcases howns.mp hother with ⟨-,rfl⟩ | ⟨-,hother⟩
    · exact ⟨⟨st.registry.nextIdentifier,claims⟩,by simp,hnext⟩
    · obtain ⟨set,hset,hid⟩ := h.live _ _ hother
      exact ⟨set,List.mem_append_left _ hset,hid⟩
  · intro slot₁ slot₂ identifier h₁ h₂
    rcases howns.mp h₁ with ⟨rfl,hid⟩ | ⟨-,h₁⟩
    · rcases howns.mp h₂ with ⟨rfl,-⟩ | ⟨-,h₂⟩
      · rfl
      · have := hle h₂
        omega
    · rcases howns.mp h₂ with ⟨rfl,hid⟩ | ⟨-,h₂⟩
      · have := hle h₁
        omega
      · exact h.unique _ _ _ h₁ h₂

/-- An assignment ends the lease it overwrites and then moves. -/
theorem Sound.assigned (h : Sound drawn st) {target source : ℕ} {lease old : FilesystemResourceLease}
    (hne : target ≠ source) (hsource : st.leases source = some lease)
    (htarget : st.leases target = some old) (calls : ℕ → Option Call) :
    Sound drawn ⟨old.release st.registry,
      Function.update (Function.update st.leases source (some .empty)) target (some lease),calls⟩ := by
  have hended := h.ended htarget st.calls
  have hsource' : Function.update st.leases target none source = some lease := by
    rw [Function.update_of_ne hne.symm,hsource]
  have hmoved := hended.moved hsource' (Function.update_self target none st.leases) calls
  have hleases : Function.update (Function.update (Function.update st.leases target none) source
      (some .empty)) target (some lease) =
      Function.update (Function.update st.leases source (some .empty)) target (some lease) := by
    rw [Function.update_comm hne,Function.update_idem]
  rw [hleases] at hmoved
  exact hmoved

theorem act_sound (h : Sound drawn st) (hact : act st a = some (st',o))
    (hdrawn : drawn + (if draws (a,o) then 1 else 0) < 2 ^ 64) :
    Sound (drawn + (if draws (a,o) then 1 else 0)) st' := by
  rcases act_cases hact with ⟨hregistry,hleases,hdraws,-⟩ | ⟨hactive,hcount,hnext,hleases,hdraws,-⟩ |
    ⟨slot,claims,hslot,hlength,hconflict,hregistry,hleases,hdraws,-⟩ |
    ⟨target,source,lease,hne,hsource,htarget,hleases,hdraws,-⟩ |
    ⟨slot,lease,hlease,hregistry,hleases,hdraws,-⟩ <;> rw [hdraws] at hdrawn ⊢
  · exact h.congr (hregistry ▸ h.registry) (by rw [hregistry]) hleases
  · exact h.congr (h.registry.wasted hactive hcount hnext) hactive hleases
  · exact h.granted hdrawn hslot hlength hconflict hregistry hleases
  · rcases htarget with ⟨htarget,hregistry,-⟩ | ⟨old,htarget,hregistry,-⟩
    · have hmoved := h.moved hsource htarget st'.calls
      rw [← hleases,← hregistry] at hmoved
      exact hmoved
    · have hassigned := h.assigned hne hsource htarget st'.calls
      rw [← hleases,← hregistry] at hassigned
      exact hassigned
  · have hended := h.ended hlease st'.calls
    rw [← hleases,← hregistry] at hended
    exact hended

def drawnIn (trace : List (Action × Outcome)) : ℕ := trace.countP draws

theorem drawnIn_snoc (trace : List (Action × Outcome)) (a : Action) (o : Outcome) :
    drawnIn (trace ++ [(a,o)]) = drawnIn trace + (if draws (a,o) then 1 else 0) := by
  simp [drawnIn,List.countP_append]

theorem run_sound {start : SharedCoordinator} {trace : List (Action × Outcome)}
    (hstart : Sound drawn start) (h : Run start trace st) (hdrawn : drawn + drawnIn trace < 2 ^ 64) :
    Sound (drawn + drawnIn trace) st := by
  induction h with
  | nil => exact hstart
  | snoc h hact ih =>
    rw [drawnIn_snoc,← Nat.add_assoc] at hdrawn ⊢
    exact act_sound (ih (by omega)) hact hdrawn

/-- Claims of different sets that meet in the registry only read. -/
theorem Sound.sharedReads (h : Sound drawn st) {set other : ActiveClaimSet}
    (hset : set ∈ st.registry.active) (hother : other ∈ st.registry.active) (hne : set ≠ other)
    {c d : ResourceClaim} (hc : c ∈ set.claims) (hd : d ∈ other.claims) (hroot : c.root = d.root)
    (hrelated : c.components <+: d.components ∨ d.components <+: c.components) :
    c.mode = .sharedRead ∧ d.mode = .sharedRead := by
  have : Std.Symm Compatible := ⟨fun _ _ hcompatible => hcompatible.symm⟩
  have hconflict := h.registry.compatible.forall hset hother hne c hc d hd
  rw [← Bool.not_eq_true,conflicts_iff] at hconflict
  have hmodes : ¬(c.mode = .exclusiveMutation ∨ d.mode = .exclusiveMutation) :=
    fun hmode => hconflict ⟨hroot,hrelated,hmode⟩
  cases hcm : c.mode <;> cases hdm : d.mode <;> simp_all

/-- A call that nothing refuses and no other thread disturbs. -/
theorem run_call {start : SharedCoordinator} {trace : List (Action × Outcome)}
    (h : Run start trace st) {thread slot identifier : ℕ} {deadline : Option ℤ}
    {requests : List FilesystemResourceAccessRequest} {claims : List ResourceClaim}
    {registry : FilesystemResourceCoordinatorState} {early middle late : Moment} {trees : ℕ → Tree}
    (hthread : st.calls thread = none) (hslot : st.leases slot = none)
    (hcheck : earlyCheck early deadline requests st.registry = .ok ())
    (hprepare : prepare true trees middle deadline requests = .ok claims)
    (hregister : register true late deadline claims st.registry = (.ok identifier,registry)) :
    Run start (trace ++ [(.earlyCheck thread requests deadline early,.done)] ++
      [(.prepare thread true trees middle,.done)] ++
      [(.register thread slot true late,.granted identifier)])
      ⟨registry,Function.update st.leases slot (some ⟨true,identifier⟩),st.calls⟩ := by
  have hadmitted : act st (.earlyCheck thread requests deadline early) = some (⟨st.registry,st.leases,
      Function.update st.calls thread (some (.admitted requests deadline))⟩,.done) := by
    simp only [act,hthread,hcheck]
  have hprepared : act ⟨st.registry,st.leases,
      Function.update st.calls thread (some (.admitted requests deadline))⟩
      (.prepare thread true trees middle) = some (⟨st.registry,st.leases,
        Function.update st.calls thread (some (.prepared claims deadline))⟩,.done) := by
    simp only [act,Function.update_self,hprepare,Function.update_idem]
  apply ((h.snoc hadmitted).snoc hprepared).snoc
  simp only [act,Function.update_self,hslot,hregister,Function.update_idem]
  rw [← hthread,Function.update_eq_self]

end SharedCoordinator
end SpareNode.Application
