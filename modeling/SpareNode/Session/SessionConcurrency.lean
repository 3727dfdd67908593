import Mathlib.Logic.Function.Basic
import SpareNode.Session.SessionStore

/-! # Interleaved session store calls

A call reads the clock before it takes the lock, so critical sections may run in another
order than their readings. Any number of threads read and enter in any order; an attempt
that meets a digest collision is followed by another reading and another section.
-/
namespace SpareNode.Session
open KeyedList

/-- A critical section waiting for the lock, with the digest its codec call produced; an
invalidation may find no memory for the principal it returns. -/
inductive Operation where
  | createSession (digest : SessionCredentialDigest) (principal : Principal)
  | authenticate (digest : SessionCredentialDigest)
  | invalidate (exhausted : Bool) (digest : SessionCredentialDigest)

def Operation.run (policy : SessionStorePolicy) (now : ℤ) (entries : List Entry) :
    Operation → Option Principal × List Entry
  | .createSession d p => createSection policy now d p entries
  | .authenticate d => authenticateSection policy now d entries
  | .invalidate exhausted d => invalidateSection policy now exhausted d entries

theorem Operation.run_wellFormed {policy : SessionStorePolicy} {entries : List Entry}
    (hp : policy.Valid) (h : WellFormed policy entries) (now : ℤ) (op : Operation) :
    WellFormed policy (op.run policy now entries).2 := by
  cases op with
  | createSession d p => exact createSection_wellFormed hp h
  | authenticate d => exact authenticateSection_wellFormed h
  | invalidate exhausted d => exact invalidateSection_wellFormed h

/-- The store, the global clock and, for each thread, the section it is about to run. -/
structure SharedStore where
  policy : SessionStorePolicy
  valid : policy.Valid
  entries : List Entry
  wellFormed : WellFormed policy entries
  clock : ℤ
  pending : ℕ → Option (Operation × ℤ)

inductive Action where
  | tick (clock : ℤ)
  | read (thread : ℕ) (op : Operation)
  | enter (thread : ℕ)

namespace SharedStore

def act (st : SharedStore) : Action → Option SharedStore
  | .tick clock => if st.clock ≤ clock then some { st with clock := clock } else none
  | .read thread op =>
    match st.pending thread with
    | none => some { st with pending := Function.update st.pending thread (some (op,st.clock)) }
    | some _ => none
  | .enter thread =>
    match st.pending thread with
    | none => none
    | some (op,now) => some { st with
        entries := (op.run st.policy now st.entries).2
        wellFormed := op.run_wellFormed st.valid st.wellFormed now
        pending := Function.update st.pending thread none }

def execute (st : SharedStore) : List Action → Option SharedStore
  | [] => some st
  | a :: actions => (st.act a).bind (fun next => next.execute actions)

/-- The digest for which a step stores a new session. -/
def issues (st : SharedStore) : Action → Option SessionCredentialDigest
  | .enter thread =>
    match st.pending thread with
    | some (.createSession d p,now) =>
      if (createSection st.policy now d p st.entries).1.isSome then some d else none
    | _ => none
  | _ => none

/-- An authentication runs with a reading no earlier than its session's recorded activity. -/
def InOrder (st : SharedStore) : Action → Prop
  | .enter thread =>
    match st.pending thread with
    | some (.authenticate d,now) =>
      ∀ e ∈ removeExpired st.policy now st.entries, e.digest = d → e.lastActivity ≤ now
    | _ => True
  | _ => True

/-- A condition holds at every step of a run. -/
def Along (P : SharedStore → Action → Prop) : SharedStore → List Action → Prop
  | _, [] => True
  | st, a :: actions => P st a ∧ ∀ next, st.act a = some next → Along P next actions

/-- No step of a run stores a new session under the digest. -/
def Retained (d : SessionCredentialDigest) : SharedStore → List Action → Prop :=
  Along (fun st a => st.issues a ≠ some d)

/-- Between any two states of a run the recorded activity of a session does not decrease. -/
def ActivityMonotone (st : SharedStore) (actions : List Action) : Prop :=
  ∀ earlier between later s₁ s₂, actions = earlier ++ between ++ later →
    st.execute earlier = some s₁ → s₁.execute between = some s₂ →
    ∀ e ∈ s₁.entries, ∀ e' ∈ s₂.entries, e'.digest = e.digest → Retained e.digest s₁ between →
      e.lastActivity ≤ e'.lastActivity

/-- After an authentication with reading `t` succeeds, no section whose reading is less than `t`
plus the idle timeout finds the session idle. -/
def NeverIdleEarly (st : SharedStore) (actions : List Action) : Prop :=
  ∀ earlier thread between later s₁ s₂ d t, actions = earlier ++ .enter thread :: between ++ later →
    st.execute earlier = some s₁ → s₁.pending thread = some (.authenticate d,t) →
    (authenticateSection s₁.policy t d s₁.entries).1.isSome →
    s₁.execute (.enter thread :: between) = some s₂ → Retained d s₁ (.enter thread :: between) →
    ∀ e ∈ s₂.entries, e.digest = d → ∀ now < t + s₂.policy.idleTimeout,
      ¬s₂.policy.idleTimeout ≤ now - e.lastActivity

section Steps
variable {st next : SharedStore} {a : Action} {d : SessionCredentialDigest}

theorem act_cases (h : st.act a = some next) : next.policy = st.policy ∧
    (next.entries = st.entries ∨ ∃ thread op now, a = .enter thread ∧
      st.pending thread = some (op,now) ∧ next.entries = (op.run st.policy now st.entries).2) := by
  cases a with
  | tick clock =>
    simp only [act] at h
    split at h
    · cases h
      exact ⟨rfl,Or.inl rfl⟩
    · cases h
  | read thread op =>
    simp only [act] at h
    split at h
    · cases h
      exact ⟨rfl,Or.inl rfl⟩
    · cases h
  | enter thread =>
    simp only [act] at h
    split at h
    · cases h
    · rename_i op now hpending
      cases h
      exact ⟨rfl,Or.inr ⟨thread,op,now,rfl,hpending,rfl⟩⟩

theorem act_enter {thread : ℕ} {op : Operation} {now : ℤ}
    (h : st.pending thread = some (op,now)) : ∃ next, st.act (.enter thread) = some next ∧
      next.entries = (op.run st.policy now st.entries).2 := by
  simp only [act,h]
  exact ⟨_,rfl,rfl⟩

/-- What an authentication leaves comes from the entries before it. -/
theorem authenticate_origin {now : ℤ} {e' : Entry} (hw : WellFormed st.policy st.entries)
    (horder : ∀ e ∈ removeExpired st.policy now st.entries, e.digest = d → e.lastActivity ≤ now)
    (he' : e' ∈ (authenticateSection st.policy now d st.entries).2) :
    ∃ e ∈ st.entries, e.digest = e'.digest ∧ e.lastActivity ≤ e'.lastActivity := by
  have hkeyed := (hw.removeExpired now).distinct
  unfold authenticateSection at he'
  dsimp only at he'
  split at he'
  · exact ⟨e',(mem_removeExpired.mp he').1,rfl,le_rfl⟩
  · rcases hkeyed.mem_adjust.mp he' with ⟨he',-⟩ | ⟨e,he,hd,rfl⟩
    · exact ⟨e',(mem_removeExpired.mp he').1,rfl,le_rfl⟩
    · exact ⟨e,(mem_removeExpired.mp he).1,rfl,horder e he hd⟩

/-- A step in order only moves the activity of a retained session forward. -/
theorem act_origin (h : st.act a = some next) (horder : st.InOrder a) {e' : Entry}
    (he' : e' ∈ next.entries) (hissue : st.issues a ≠ some e'.digest) :
    ∃ e ∈ st.entries, e.digest = e'.digest ∧ e.lastActivity ≤ e'.lastActivity := by
  obtain ⟨-,hsame | ⟨thread,op,now,rfl,hpending,hentries⟩⟩ := act_cases h
  · exact ⟨e',hsame ▸ he',rfl,le_rfl⟩
  rw [hentries] at he'
  cases op with
  | createSession d p =>
    simp only [issues,hpending] at hissue
    simp only [Operation.run,createSection] at he' hissue
    split at he'
    · exact ⟨e',(mem_removeExpired.mp he').1,rfl,le_rfl⟩
    · rename_i hc
      simp only [hc,Bool.false_eq_true,↓reduceIte,Option.isSome_some,ne_eq,Option.some.injEq] at hissue
      rcases List.mem_append.mp he' with he' | he'
      · exact ⟨e',(mem_removeExpired.mp (evict_sublist.subset he')).1,rfl,le_rfl⟩
      · rw [List.mem_singleton.mp he'] at hissue
        exact absurd rfl hissue
  | authenticate d =>
    simp only [InOrder,hpending] at horder
    exact authenticate_origin st.wellFormed horder he'
  | invalidate exhausted d =>
    simp only [Operation.run,invalidateSection] at he'
    split at he'
    · exact ⟨e',(mem_removeExpired.mp he').1,rfl,le_rfl⟩
    · cases exhausted with
      | true => exact ⟨e',(mem_removeExpired.mp he').1,rfl,le_rfl⟩
      | false => exact ⟨e',(mem_removeExpired.mp (List.mem_of_mem_eraseP he')).1,rfl,le_rfl⟩

/-- A step out of order moves the activity of the session it authenticates back. -/
theorem act_regress (horder : ¬st.InOrder a) : ∃ next, st.act a = some next ∧
    ∃ e ∈ st.entries, st.issues a ≠ some e.digest ∧
      ∃ e' ∈ next.entries, e'.digest = e.digest ∧ e'.lastActivity < e.lastActivity := by
  cases a with
  | tick | read => exact absurd trivial horder
  | enter thread =>
    cases hpending : st.pending thread with
    | none => simp [InOrder,hpending] at horder
    | some waiting =>
      obtain ⟨op,now⟩ := waiting
      cases op with
      | createSession | invalidate => simp [InOrder,hpending] at horder
      | authenticate d =>
        simp only [InOrder,hpending,not_forall,not_le] at horder
        obtain ⟨e,he,rfl,hback⟩ := horder
        have hkeyed := (st.wellFormed.removeExpired now).distinct
        have hfound := hkeyed.lookup_eq_some_iff.mpr ⟨he,rfl⟩
        obtain ⟨next,hact,hentries⟩ := act_enter hpending
        refine ⟨next,hact,e,(mem_removeExpired.mp he).1,by simp [issues,hpending],
          { e with lastActivity := now },?_,rfl,hback⟩
        simp only [hentries,Operation.run,authenticateSection,hfound]
        exact hkeyed.mem_adjust.mpr (Or.inr ⟨e,he,rfl,rfl⟩)

end Steps

section Runs
variable {st st' : SharedStore} {actions : List Action} {d : SessionCredentialDigest}

/-- In a run in order, every entry of a retained session descends from an earlier one with no
later activity. -/
theorem execute_origin (h : st.execute actions = some st') (horder : Along InOrder st actions)
    {e' : Entry} (he' : e' ∈ st'.entries) (hretained : Retained e'.digest st actions) :
    ∃ e ∈ st.entries, e.digest = e'.digest ∧ e.lastActivity ≤ e'.lastActivity := by
  induction actions generalizing st with
  | nil =>
    cases h
    exact ⟨e',he',rfl,le_rfl⟩
  | cons a actions ih =>
    obtain ⟨next,hact,hrest⟩ := Option.bind_eq_some_iff.mp h
    obtain ⟨e₁,he₁,hd₁,hle₁⟩ := ih hrest (horder.2 next hact) (hretained.2 next hact)
    obtain ⟨e,he,hd,hle⟩ := act_origin hact horder.1 he₁ (hd₁ ▸ hretained.1)
    exact ⟨e,he,hd.trans hd₁,hle.trans hle₁⟩

theorem along_cons {P : SharedStore → Action → Prop} {a : Action} (hP : P st a)
    (hact : st.act a = some st') (h : Along P st' actions) : Along P st (a :: actions) := by
  refine ⟨hP,?_⟩
  intro next hnext
  rw [← Option.some.inj (hact.symm.trans hnext)]
  exact h

theorem along_append {P : SharedStore → Action → Prop} {earlier rest : List Action}
    (h : Along P st (earlier ++ rest)) (hrun : st.execute earlier = some st') :
    Along P st' rest := by
  induction earlier generalizing st with
  | nil =>
    cases hrun
    exact h
  | cons a earlier ih =>
    obtain ⟨next,hact,hrest⟩ := Option.bind_eq_some_iff.mp hrun
    exact ih (h.2 next hact) hrest

theorem along_take {P : SharedStore → Action → Prop} {earlier rest : List Action}
    (h : Along P st (earlier ++ rest)) : Along P st earlier := by
  induction earlier generalizing st with
  | nil => trivial
  | cons a earlier ih => exact ⟨h.1,fun next hact => ih (h.2 next hact)⟩

theorem activityMonotone_of_inOrder (horder : Along InOrder st actions) :
    ActivityMonotone st actions := by
  rintro earlier between later s₁ s₂ rfl h₁ h₂ e he e' he' hd hretained
  rw [List.append_assoc] at horder
  have hbetween := along_take (along_append horder h₁)
  obtain ⟨e₀,he₀,hd₀,hle⟩ := execute_origin h₂ hbetween he' (hd ▸ hretained)
  rw [← s₁.wellFormed.distinct.eq he₀ he (hd₀.trans hd)]
  exact hle

/-- Right after an authentication the session's activity is its reading. -/
theorem authenticate_activity {thread : ℕ} {t : ℤ} {next : SharedStore}
    (hpending : st.pending thread = some (.authenticate d,t))
    (hfound : (authenticateSection st.policy t d st.entries).1.isSome)
    (hact : st.act (.enter thread) = some next) {e : Entry} (he : e ∈ next.entries)
    (hd : e.digest = d) : e.lastActivity = t := by
  simp only [act,hpending,Option.some.injEq] at hact
  subst hact
  have hkeyed := (st.wellFormed.removeExpired t).distinct
  simp only [Operation.run,authenticateSection] at he hfound
  split at he
  · rename_i hnone
    simp [hnone] at hfound
  · rcases hkeyed.mem_adjust.mp he with ⟨-,hne⟩ | ⟨x,-,-,rfl⟩
    · exact absurd hd hne
    · rfl

theorem neverIdleEarly_of_inOrder (horder : Along InOrder st actions) :
    NeverIdleEarly st actions := by
  rintro earlier thread between later s₁ s₂ d t rfl h₁ hpending hfound h₂ hretained e' he' rfl now hnow
  rw [List.append_assoc] at horder
  have hbetween := along_take (along_append horder h₁)
  obtain ⟨next,hact,hrest⟩ := Option.bind_eq_some_iff.mp h₂
  obtain ⟨e,he,hd,hle⟩ := execute_origin hrest (hbetween.2 next hact) he' (hretained.2 next hact)
  have hstart := authenticate_activity hpending hfound hact he hd
  omega

theorem inOrder_of_activityMonotone (h : ActivityMonotone st actions) : Along InOrder st actions := by
  induction actions generalizing st with
  | nil => trivial
  | cons a actions ih =>
    refine ⟨?_,fun next hact => ih ?_⟩
    · by_contra hback
      obtain ⟨next,hact,e,he,hissue,e',he',hd,hlt⟩ := act_regress hback
      have hle := h [] [a] actions st next rfl rfl (by simp [execute,hact]) e he e' he' hd
        ⟨hissue,fun _ _ => trivial⟩
      omega
    · rintro earlier between later s₁ s₂ rfl h₁ h₂
      exact h (a :: earlier) between later s₁ s₂ rfl (by simp [execute,hact,h₁]) h₂

/-- Activity is monotone, with what follows for idle sessions, in exactly the runs whose
authentications all run in the order of their readings. -/
theorem activity_monotone_iff_inOrder (st : SharedStore) (actions : List Action) :
    (ActivityMonotone st actions ∧ NeverIdleEarly st actions) ↔ Along InOrder st actions := by
  constructor
  · exact fun h => inOrder_of_activityMonotone h.1
  · exact fun h => ⟨activityMonotone_of_inOrder h,neverIdleEarly_of_inOrder h⟩

end Runs

def initial (policy : SessionStorePolicy) (h : policy.Valid) : SharedStore :=
  ⟨policy,h,[],wellFormed_nil policy,0,fun _ => none⟩

/-- Thread 1 reads the clock at 0 and thread 2 at 10; thread 2 enters first. Thread 3 reads the
clock at 20, less than the idle timeout after thread 2's reading. -/
def overtaking (d : SessionCredentialDigest) (p : Principal) : List Action :=
  [.read 0 (.createSession d p),.enter 0,.read 1 (.authenticate d),.tick 10,
    .read 2 (.authenticate d),.enter 2,.enter 1,.tick 20,.read 3 (.authenticate d)]

/-- The overtaken authentication takes the session's activity back to 0, and thread 3 finds the
session idle. -/
theorem overtaking_regresses :
    ¬ActivityMonotone (initial ⟨100,15,1⟩ (by decide))
      (overtaking (Vector.replicate 32 0) ⟨ascii "owner"⟩) ∧
    ¬NeverIdleEarly (initial ⟨100,15,1⟩ (by decide))
      (overtaking (Vector.replicate 32 0) ⟨ascii "owner"⟩) := by
  constructor
  · intro h
    have hle := h (List.take 6 (overtaking (Vector.replicate 32 0) ⟨ascii "owner"⟩)) [.enter 1]
      [.tick 20,.read 3 (.authenticate (Vector.replicate 32 0))] _ _ rfl rfl rfl
      ⟨Vector.replicate 32 0,⟨ascii "owner"⟩,0,10⟩ (by decide)
      ⟨Vector.replicate 32 0,⟨ascii "owner"⟩,0,0⟩ (by decide) rfl (along_cons (by decide) rfl trivial)
    exact absurd hle (by decide)
  · intro h
    have hidle := h (List.take 5 (overtaking (Vector.replicate 32 0) ⟨ascii "owner"⟩)) 2
      [.enter 1,.tick 20,.read 3 (.authenticate (Vector.replicate 32 0))] [] _ _
      (Vector.replicate 32 0) 10 rfl rfl rfl (by decide) rfl
      (along_cons (by decide) rfl (along_cons (by decide) rfl (along_cons (by decide) rfl
        (along_cons (by decide) rfl trivial))))
      ⟨Vector.replicate 32 0,⟨ascii "owner"⟩,0,0⟩ (by decide) rfl 20 (by decide)
    exact absurd hidle (by decide)

end SharedStore
end SpareNode.Session
