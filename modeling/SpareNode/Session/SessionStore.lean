import Mathlib.Data.List.MinMax
import SpareNode.Foundation.Bytes
import SpareNode.Library.KeyedList

/-! # The bounded session store

Time points and durations of the steady clock are integers. Each call digests or generates
a credential, reads the clock and then runs one critical section under the lock; the
critical sections are functions of that reading and of the retained entries. The clock and
the codec are the store's environment: their answers are numbered by the calls made so far.
-/
namespace SpareNode.Session
open KeyedList

structure Principal where
  identity : Bytes
deriving DecidableEq, Repr

abbrev SessionCredentialDigest := Vector UInt8 32

/-- Durations are in nanoseconds; the defaults are 12 hours, 30 minutes and 64 sessions. -/
structure SessionStorePolicy where
  absoluteLifetime : ℤ := 12 * 3600 * 1000000000
  idleTimeout : ℤ := 30 * 60 * 1000000000
  maximumSessions : ℕ := 64

inductive SessionStoreErrorCode where
  | invalidPolicy | credentialGenerationFailed | credentialDigestFailed | resourceAllocationFailed
deriving DecidableEq, Repr

inductive SessionCredentialErrorCode where
  | invalidCredential | cryptographyUnavailable | resourceAllocationFailed
deriving DecidableEq, Repr

/-- What one call of `SessionCredentialCodec::generate` does. -/
inductive GenerateOutcome where
  | generated (value : Bytes) (digest : SessionCredentialDigest)
  | failed (code : SessionCredentialErrorCode)
  | badAlloc

/-- The clock, the codec and the memory. A credential has one digest or none, but any call that asks
for it may find cryptography unavailable, and under any reading of the clock there may be no memory
for a copy of a principal. -/
structure Environment where
  clock : ℕ → ℤ
  generate : ℕ → GenerateOutcome
  digest : Bytes → Option SessionCredentialDigest
  unavailable : ℕ → Bool
  exhausted : ℕ → Bool

/-- The `n`-th call of `SessionCredentialCodec::digest`. -/
def Environment.digestCall (env : Environment) (n : ℕ) (credential : Bytes) :
    Except SessionCredentialErrorCode SessionCredentialDigest :=
  if env.unavailable n then .error .cryptographyUnavailable else
    match env.digest credential with
    | none => .error .invalidCredential
    | some d => .ok d

/-- The copy of a found principal that a call returns, under the `n`-th reading of the clock. -/
def Environment.copied (env : Environment) (n : ℕ) (found : Option Principal) :
    Except SessionStoreErrorCode (Option Principal) :=
  if found.isSome && env.exhausted n then .error .resourceAllocationFailed else .ok found

@[simp] theorem Environment.copied_none (env : Environment) (n : ℕ) : env.copied n none = .ok none := rfl

theorem Environment.copied_some {env : Environment} {n : ℕ} (h : env.exhausted n = false) (p : Principal) :
    env.copied n (some p) = .ok (some p) := by
  rw [copied,h,Bool.and_false,if_neg (by decide)]

theorem Environment.copied_exhausted {env : Environment} {n : ℕ} (h : env.exhausted n = true) (p : Principal) :
    env.copied n (some p) = .error .resourceAllocationFailed := by
  rw [copied,h,Option.isSome_some,Bool.and_self,if_pos rfl]

structure Entry where
  digest : SessionCredentialDigest
  principal : Principal
  created : ℤ
  lastActivity : ℤ
deriving DecidableEq

section CriticalSections
variable (policy : SessionStorePolicy) (now : ℤ)

def expired (e : Entry) : Bool :=
  policy.absoluteLifetime ≤ now - e.created || policy.idleTimeout ≤ now - e.lastActivity

def contains (entries : List Entry) (d : SessionCredentialDigest) : Bool :=
  entries.any (fun e => e.digest = d)

def removeExpired (entries : List Entry) : List Entry :=
  entries.filter (fun e => !expired policy now e)

/-- `min_element` finds the first entry of least activity. The order on the integers is named
because the default instance does not compute. -/
def leastRecent (entries : List Entry) : Option Entry :=
  @List.argmin Entry ℤ Int.instLinearOrder.toPreorder _ Entry.lastActivity entries

def evictLeastRecentIfFull (entries : List Entry) : List Entry :=
  if entries.length ≠ policy.maximumSessions then entries else
    match leastRecent entries with
    | none => entries
    | some e => entries.erase e

/-- One attempt of `create_session` under the lock; no principal is stored on a collision. -/
def createSection (d : SessionCredentialDigest) (principal : Principal) (entries : List Entry) :
    Option Principal × List Entry :=
  let live := removeExpired policy now entries
  if contains live d then (none,live)
  else (some principal,evictLeastRecentIfFull policy live ++ [⟨d,principal,now,now⟩])

def authenticateSection (d : SessionCredentialDigest) (entries : List Entry) :
    Option Principal × List Entry :=
  let live := removeExpired policy now entries
  match lookup Entry.digest d live with
  | none => (none,live)
  | some e => (some e.principal,adjust Entry.digest d (fun e => { e with lastActivity := now }) live)

/-- The principal is copied before its session is erased: without memory the session stays. -/
def invalidateSection (exhausted : Bool) (d : SessionCredentialDigest) (entries : List Entry) :
    Option Principal × List Entry :=
  let live := removeExpired policy now entries
  match lookup Entry.digest d live with
  | none => (none,live)
  | some e => (some e.principal,if exhausted then live else remove Entry.digest d live)

end CriticalSections

def SessionStorePolicy.Valid (policy : SessionStorePolicy) : Prop :=
  policy.maximumSessions ≠ 0 ∧ 0 < policy.absoluteLifetime ∧ 0 < policy.idleTimeout

instance (policy : SessionStorePolicy) : Decidable policy.Valid := by
  unfold SessionStorePolicy.Valid
  infer_instance

example : ({} : SessionStorePolicy).Valid := by decide

/-- The retained entries fit the capacity and own their digests. -/
structure WellFormed (policy : SessionStorePolicy) (entries : List Entry) : Prop where
  bounded : entries.length ≤ policy.maximumSessions
  distinct : Keyed Entry.digest entries

section Preservation
variable {policy : SessionStorePolicy} {now : ℤ} {entries : List Entry} {d : SessionCredentialDigest}

@[simp] theorem mem_removeExpired {e : Entry} :
    e ∈ removeExpired policy now entries ↔ e ∈ entries ∧ expired policy now e = false := by
  simp [removeExpired]

theorem contains_eq_false : contains entries d = false ↔ ∀ e ∈ entries, e.digest ≠ d := by
  simp [contains]

theorem wellFormed_nil (policy : SessionStorePolicy) : WellFormed policy [] :=
  ⟨Nat.zero_le _,List.nodup_nil⟩

theorem WellFormed.sublist {after : List Entry} (h : WellFormed policy entries)
    (hs : after.Sublist entries) : WellFormed policy after :=
  ⟨hs.length_le.trans h.bounded,h.distinct.sublist hs⟩

theorem WellFormed.removeExpired (h : WellFormed policy entries) (now : ℤ) :
    WellFormed policy (removeExpired policy now entries) :=
  h.sublist List.filter_sublist

theorem evict_sublist : (evictLeastRecentIfFull policy entries).Sublist entries := by
  unfold evictLeastRecentIfFull
  split
  · exact List.Sublist.refl entries
  · split
    · exact List.Sublist.refl entries
    · exact List.erase_sublist

/-- Eviction takes place when the store is full, and removes a least recently active entry. -/
theorem evict_cases (hp : policy.Valid) (entries : List Entry) :
    (entries.length ≠ policy.maximumSessions ∧ evictLeastRecentIfFull policy entries = entries) ∨
    ∃ victim ∈ entries, entries.length = policy.maximumSessions ∧
      (∀ e ∈ entries, victim.lastActivity ≤ e.lastActivity) ∧
      evictLeastRecentIfFull policy entries = entries.erase victim := by
  unfold evictLeastRecentIfFull
  by_cases hfull : entries.length ≠ policy.maximumSessions
  · exact Or.inl ⟨hfull,if_pos hfull⟩
  · right
    rw [if_neg hfull]
    have hlen : entries.length = policy.maximumSessions := not_not.mp hfull
    cases hv : leastRecent entries with
    | none =>
      rw [List.argmin_eq_none.mp hv] at hlen
      exact absurd hlen.symm hp.1
    | some victim =>
      exact ⟨victim,List.argmin_mem hv,hlen,fun e he => List.le_of_mem_argmin he hv,rfl⟩

theorem evict_length (hp : policy.Valid) (h : WellFormed policy entries) :
    (evictLeastRecentIfFull policy entries).length < policy.maximumSessions := by
  have hb := h.bounded
  rcases evict_cases hp entries with ⟨hne,heq⟩ | ⟨victim,hv,hlen,-,heq⟩
  · rw [heq]
    omega
  · rw [heq,List.length_erase_of_mem hv]
    have := List.length_pos_of_mem hv
    omega

theorem createSection_wellFormed {principal : Principal} (hp : policy.Valid)
    (h : WellFormed policy entries) :
    WellFormed policy (createSection policy now d principal entries).2 := by
  have hlive := h.removeExpired now
  unfold createSection
  dsimp only
  split
  · exact hlive
  · rename_i hc
    have hfresh := contains_eq_false.mp (Bool.not_eq_true _ ▸ hc)
    have hlen := evict_length hp hlive
    refine ⟨by simpa using hlen,?_⟩
    apply (hlive.distinct.sublist evict_sublist).snoc
    intro e he
    exact hfresh e (evict_sublist.subset he)

theorem touch_digests (now : ℤ) (d : SessionCredentialDigest) (entries : List Entry) :
    (adjust Entry.digest d (fun e => { e with lastActivity := now }) entries).map Entry.digest =
      entries.map Entry.digest :=
  adjust_keys (fun _ => rfl)

theorem authenticateSection_wellFormed (h : WellFormed policy entries) :
    WellFormed policy (authenticateSection policy now d entries).2 := by
  have hlive := h.removeExpired now
  unfold authenticateSection
  dsimp only
  split
  · exact hlive
  · have hkeys := touch_digests now d (removeExpired policy now entries)
    constructor
    · have hlen := congrArg List.length hkeys
      rw [List.length_map,List.length_map] at hlen
      exact hlen ▸ hlive.bounded
    · unfold Keyed
      rw [hkeys]
      exact hlive.distinct

theorem invalidateSection_wellFormed {exhausted : Bool} (h : WellFormed policy entries) :
    WellFormed policy (invalidateSection policy now exhausted d entries).2 := by
  have hlive := h.removeExpired now
  unfold invalidateSection
  dsimp only
  split
  · exact hlive
  · cases exhausted with
    | true => exact hlive
    | false => exact hlive.sublist List.eraseP_sublist

end Preservation

/-- The store's policy, its entries and the number of calls its environment has answered. -/
structure SessionStore where
  policy : SessionStorePolicy
  valid : policy.Valid
  entries : List Entry
  wellFormed : WellFormed policy entries
  readings : ℕ
  generations : ℕ
  digests : ℕ

namespace SessionStore

def create (policy : SessionStorePolicy) : Except SessionStoreErrorCode SessionStore :=
  if h : policy.Valid then .ok ⟨policy,h,[],wellFormed_nil policy,0,0,0⟩
  else .error .invalidPolicy

/-- The store when the lock is released, after one more reading of the clock. -/
def unlock (s : SessionStore) (entries : List Entry) (h : WellFormed s.policy entries) :
    SessionStore :=
  { s with entries := entries, wellFormed := h, readings := s.readings + 1 }

def maximumGenerationAttempts : ℕ := 4

/-- The loop of `create_session`, with the number of attempts left. -/
def createAttempts (env : Environment) (principal : Principal) :
    ℕ → SessionStore → Except SessionStoreErrorCode Bytes × SessionStore
  | 0, s => (.error .credentialGenerationFailed,s)
  | attempts + 1, s =>
    let s' := { s with generations := s.generations + 1 }
    match env.generate s.generations with
    | .failed _ => (.error .credentialGenerationFailed,s')
    | .badAlloc => (.error .resourceAllocationFailed,s')
    | .generated value d =>
      let now := env.clock s.readings
      let locked := s'.unlock (createSection s.policy now d principal s.entries).2
        (createSection_wellFormed s.valid s.wellFormed)
      match (createSection s.policy now d principal s.entries).1 with
      | none => createAttempts env principal attempts locked
      | some _ => (.ok value,locked)

def createSession (env : Environment) (principal : Principal) (s : SessionStore) :
    Except SessionStoreErrorCode Bytes × SessionStore :=
  createAttempts env principal maximumGenerationAttempts s

/-- The activity is written before the principal is copied. -/
def authenticate (env : Environment) (credential : Bytes) (s : SessionStore) :
    Except SessionStoreErrorCode (Option Principal) × SessionStore :=
  let s' := { s with digests := s.digests + 1 }
  match env.digestCall s.digests credential with
  | .error .invalidCredential => (.ok none,s')
  | .error _ => (.error .credentialDigestFailed,s')
  | .ok d =>
    let now := env.clock s.readings
    (env.copied s.readings (authenticateSection s.policy now d s.entries).1,
      s'.unlock (authenticateSection s.policy now d s.entries).2
        (authenticateSection_wellFormed s.wellFormed))

def invalidate (env : Environment) (credential : Bytes) (s : SessionStore) :
    Except SessionStoreErrorCode (Option Principal) × SessionStore :=
  let s' := { s with digests := s.digests + 1 }
  match env.digestCall s.digests credential with
  | .error .invalidCredential => (.ok none,s')
  | .error _ => (.error .credentialDigestFailed,s')
  | .ok d =>
    let now := env.clock s.readings
    let exhausted := env.exhausted s.readings
    (env.copied s.readings (invalidateSection s.policy now exhausted d s.entries).1,
      s'.unlock (invalidateSection s.policy now exhausted d s.entries).2
        (invalidateSection_wellFormed s.wellFormed))

end SessionStore
end SpareNode.Session
