import SpareNode.Session.SessionHistory

/-! # The session store refines its history

Runs of store calls record a log. With a clock that does not go back and a codec that tells
credentials apart, the store authenticates exactly the credentials the log makes live.
Every call is first reduced to one of five outcomes; the invariant is kept by each.
-/
namespace SpareNode.Session
open KeyedList

inductive Call where
  | createSession (principal : Principal)
  | authenticate (credential : Bytes)
  | invalidate (credential : Bytes)

inductive Reply where
  | credential (result : Except SessionStoreErrorCode Bytes)
  | principal (result : Except SessionStoreErrorCode (Option Principal))

def Reply.succeeded : Reply → Bool
  | .credential (.ok _) => true
  | .principal (.ok (some _)) => true
  | _ => false

/-- An authentication that finds its session fails only for want of memory. -/
def Call.found : Call → Reply → Bool
  | .authenticate _, .principal (.ok (some _)) => true
  | .authenticate _, .principal (.error .resourceAllocationFailed) => true
  | _, _ => false

def SessionStore.perform (env : Environment) (s : SessionStore) : Call → Reply × SessionStore
  | .createSession p => (.credential (s.createSession env p).1,(s.createSession env p).2)
  | .authenticate c => (.principal (s.authenticate env c).1,(s.authenticate env c).2)
  | .invalidate c => (.principal (s.invalidate env c).1,(s.invalidate env c).2)

/-- The entries that no reading of the clock during a call finds expired. -/
def liveDuring (env : Environment) (before after : SessionStore) : List Entry :=
  before.entries.filter (fun e =>
    (List.range' before.readings (after.readings - before.readings)).all
      (fun n => !expired before.policy (env.clock n) e))

/-- What a call adds to the log. A session is evicted when a successful `create_session` leaves
no entry of its digest. -/
def callEvents (env : Environment) (before after : SessionStore) : Call → Reply → List SessionEvent
  | .createSession p, .credential (.ok c) =>
    .issued c p (env.clock (after.readings - 1)) ::
      (((liveDuring env before after).filter (fun e => !contains after.entries e.digest)).map
        Entry.digest).map .evicted
  | .authenticate c, .principal (.ok (some _)) => [.authenticated c (env.clock (after.readings - 1))]
  | .authenticate c, .principal (.error .resourceAllocationFailed) =>
    [.lost c (env.clock (after.readings - 1))]
  | .invalidate c, .principal (.ok (some _)) => [.invalidated c]
  | _, _ => []

def SessionStore.step (env : Environment) (state : SessionStore × List SessionEvent) (call : Call) :
    SessionStore × List SessionEvent :=
  let answer := state.1.perform env call
  (answer.2,callEvents env state.1 answer.2 call answer.1 ++ state.2)

/-- The store and the log after a run of calls. -/
def SessionStore.run (env : Environment) (s : SessionStore) (calls : List Call) :
    SessionStore × List SessionEvent :=
  calls.foldl (SessionStore.step env) (s,[])

section Expiry
variable {policy : SessionStorePolicy} {t t' : ℤ} {e : Entry}

theorem expired_eq_false : expired policy t e = false ↔
    t - e.created < policy.absoluteLifetime ∧ t - e.lastActivity < policy.idleTimeout := by
  simp [expired]

theorem expired_mono (ht : t ≤ t') (h : expired policy t' e = false) : expired policy t e = false := by
  rw [expired_eq_false] at h ⊢
  omega

theorem removeExpired_removeExpired (ht : t ≤ t') (entries : List Entry) :
    removeExpired policy t' (removeExpired policy t entries) = removeExpired policy t' entries := by
  unfold removeExpired
  rw [List.filter_filter]
  apply List.filter_congr
  intro e _
  cases h : expired policy t' e with
  | true => rfl
  | false => simp [expired_mono ht h]

end Expiry

section Outcomes
variable {env : Environment} {s after : SessionStore}

/-- What a call can do to the store. -/
inductive Outcome (env : Environment) (s after : SessionStore) : Call → Reply → Prop
  | untouched {call : Call} {reply : Reply} (hreadings : after.readings = s.readings)
      (hentries : after.entries = s.entries) (hfailed : reply.succeeded = false)
      (hnotFound : call.found reply = false) : Outcome env s after call reply
  | missed {call : Call} {reply : Reply} (n : ℕ) (hn : s.readings ≤ n)
      (hreadings : after.readings = n + 1)
      (hentries : after.entries = removeExpired s.policy (env.clock n) s.entries)
      (hfailed : reply.succeeded = false) (hnotFound : call.found reply = false) :
      Outcome env s after call reply
  | issued {p : Principal} {c : Bytes} (n : ℕ) (hn : s.readings ≤ n)
      (hreadings : after.readings = n + 1) (k : ℕ) (d : SessionCredentialDigest)
      (hgenerated : env.generate k = .generated c d)
      (hfresh : ∀ e ∈ removeExpired s.policy (env.clock n) s.entries, e.digest ≠ d)
      (hentries : after.entries = evictLeastRecentIfFull s.policy
        (removeExpired s.policy (env.clock n) s.entries) ++ [⟨d,p,env.clock n,env.clock n⟩]) :
      Outcome env s after (.createSession p) (.credential (.ok c))
  | authenticated {c : Bytes} (n : ℕ) (hn : s.readings ≤ n) (hreadings : after.readings = n + 1)
      (found : Entry) (hdigest : env.digest c = some found.digest)
      (hfound : found ∈ removeExpired s.policy (env.clock n) s.entries)
      (hentries : after.entries = adjust Entry.digest found.digest
        (fun e => { e with lastActivity := env.clock n })
        (removeExpired s.policy (env.clock n) s.entries)) :
      Outcome env s after (.authenticate c) (.principal (env.copied n (some found.principal)))
  | invalidated {c : Bytes} (n : ℕ) (hn : s.readings ≤ n) (hreadings : after.readings = n + 1)
      (found : Entry) (hdigest : env.digest c = some found.digest)
      (hfound : found ∈ removeExpired s.policy (env.clock n) s.entries)
      (hentries : after.entries = remove Entry.digest found.digest
        (removeExpired s.policy (env.clock n) s.entries)) :
      Outcome env s after (.invalidate c) (.principal (.ok (some found.principal)))

theorem createAttempts_outcome (hclock : Monotone env.clock) (p : Principal) (attempts : ℕ)
    (s : SessionStore) :
    (SessionStore.createAttempts env p attempts s).2.policy = s.policy ∧
    Outcome env s (SessionStore.createAttempts env p attempts s).2 (.createSession p)
      (.credential (SessionStore.createAttempts env p attempts s).1) := by
  induction attempts generalizing s with
  | zero => exact ⟨rfl,.untouched rfl rfl rfl rfl⟩
  | succ attempts ih =>
    rw [SessionStore.createAttempts]
    dsimp only
    cases hg : env.generate s.generations with
    | failed code => exact ⟨rfl,.untouched rfl rfl rfl rfl⟩
    | badAlloc => exact ⟨rfl,.untouched rfl rfl rfl rfl⟩
    | generated c d =>
      dsimp only
      cases hc : contains (removeExpired s.policy (env.clock s.readings) s.entries) d with
      | true =>
        -- A collision: the loop goes on from the entries of this reading.
        have hsection : createSection s.policy (env.clock s.readings) d p s.entries =
            (none,removeExpired s.policy (env.clock s.readings) s.entries) := by
          simp [createSection,hc]
        simp only [hsection]
        obtain ⟨hpolicy,hrest⟩ := ih (SessionStore.unlock { s with generations := s.generations + 1 }
          (removeExpired s.policy (env.clock s.readings) s.entries)
          (s.wellFormed.removeExpired (env.clock s.readings)))
        refine ⟨hpolicy,?_⟩
        generalize SessionStore.createAttempts env p attempts _ = answer at hrest ⊢
        obtain ⟨reply,after⟩ := answer
        dsimp only at hrest ⊢
        cases hrest with
        | untouched hr he hf hnot => exact .missed s.readings le_rfl hr he hf hnot
        | missed n hn hr he hf hnot =>
          have hle : s.readings ≤ n := by
            simp only [SessionStore.unlock] at hn
            omega
          exact .missed n hle hr (he.trans (removeExpired_removeExpired (hclock hle) _)) hf hnot
        | issued n hn hr k d' hgen hfresh he =>
          have hle : s.readings ≤ n := by
            simp only [SessionStore.unlock] at hn
            omega
          simp only [SessionStore.unlock,removeExpired_removeExpired (hclock hle)] at hfresh he
          exact .issued n hle hr k d' hgen hfresh he
      | false =>
        have hsection : createSection s.policy (env.clock s.readings) d p s.entries =
            (some p,evictLeastRecentIfFull s.policy
              (removeExpired s.policy (env.clock s.readings) s.entries) ++
              [⟨d,p,env.clock s.readings,env.clock s.readings⟩]) := by
          simp [createSection,hc]
        simp only [hsection]
        exact ⟨rfl,.issued s.readings le_rfl rfl s.generations d hg (contains_eq_false.mp hc) rfl⟩

theorem authenticate_outcome (c : Bytes) (s : SessionStore) :
    (s.authenticate env c).2.policy = s.policy ∧
    Outcome env s (s.authenticate env c).2 (.authenticate c) (.principal (s.authenticate env c).1) := by
  unfold SessionStore.authenticate Environment.digestCall
  dsimp only
  cases env.unavailable s.digests with
  | true => exact ⟨rfl,.untouched rfl rfl rfl rfl⟩
  | false =>
    cases hd : env.digest c with
    | none => exact ⟨rfl,.untouched rfl rfl rfl rfl⟩
    | some d =>
      refine ⟨rfl,?_⟩
      cases hl : lookup Entry.digest d (removeExpired s.policy (env.clock s.readings) s.entries) with
      | none =>
        have hsection : authenticateSection s.policy (env.clock s.readings) d s.entries =
            (none,removeExpired s.policy (env.clock s.readings) s.entries) := by
          simp [authenticateSection,hl]
        exact .missed s.readings le_rfl rfl (congrArg Prod.snd hsection) (by simp [hsection,Reply.succeeded])
          (by simp [hsection,Call.found])
      | some found =>
        obtain ⟨hfound,rfl⟩ :=
          (s.wellFormed.removeExpired (env.clock s.readings)).distinct.lookup_eq_some_iff.mp hl
        simp only [Bool.false_eq_true,↓reduceIte,authenticateSection,hl]
        exact .authenticated s.readings le_rfl rfl found hd hfound rfl

theorem invalidate_outcome (c : Bytes) (s : SessionStore) :
    (s.invalidate env c).2.policy = s.policy ∧
    Outcome env s (s.invalidate env c).2 (.invalidate c) (.principal (s.invalidate env c).1) := by
  unfold SessionStore.invalidate Environment.digestCall
  dsimp only
  cases env.unavailable s.digests with
  | true => exact ⟨rfl,.untouched rfl rfl rfl rfl⟩
  | false =>
    cases hd : env.digest c with
    | none => exact ⟨rfl,.untouched rfl rfl rfl rfl⟩
    | some d =>
      refine ⟨rfl,?_⟩
      cases hl : lookup Entry.digest d (removeExpired s.policy (env.clock s.readings) s.entries) with
      | none =>
        have hsection : invalidateSection s.policy (env.clock s.readings) (env.exhausted s.readings) d
            s.entries =
            (none,removeExpired s.policy (env.clock s.readings) s.entries) := by
          simp [invalidateSection,hl]
        exact .missed s.readings le_rfl rfl (congrArg Prod.snd hsection) (by simp [hsection,Reply.succeeded]) rfl
      | some found =>
        obtain ⟨hfound,rfl⟩ :=
          (s.wellFormed.removeExpired (env.clock s.readings)).distinct.lookup_eq_some_iff.mp hl
        simp only [Bool.false_eq_true,↓reduceIte,invalidateSection,hl]
        by_cases hcopy : env.exhausted s.readings = true
        · rw [Environment.copied_exhausted hcopy]
          exact .missed s.readings le_rfl rfl (if_pos hcopy) rfl rfl
        · rw [Environment.copied_some (Bool.not_eq_true _ ▸ hcopy)]
          exact .invalidated s.readings le_rfl rfl found hd hfound (if_neg hcopy)

theorem perform_outcome (hclock : Monotone env.clock) (s : SessionStore) (call : Call) :
    (s.perform env call).2.policy = s.policy ∧
    Outcome env s (s.perform env call).2 call (s.perform env call).1 := by
  cases call with
  | createSession p => exact createAttempts_outcome hclock p _ s
  | authenticate c => exact authenticate_outcome c s
  | invalidate c => exact invalidate_outcome c s

end Outcomes

/-- Generated credentials have the reported digest, and a digest has one credential. -/
structure Faithful (env : Environment) : Prop where
  reported : ∀ n c d, env.generate n = .generated c d → env.digest c = some d
  injective : ∀ c c' d, env.digest c = some d → env.digest c' = some d → c = c'

def Entry.record (e : Entry) : SessionRecord := ⟨e.principal,e.created,e.lastActivity⟩

/-- At time `t` the entries are the current records of the abstract session map. -/
structure Agrees (env : Environment) (policy : SessionStorePolicy) (t : ℤ) (entries : List Entry)
    (log : List SessionEvent) : Prop where
  past : ∀ e ∈ entries, e.created ≤ t
  sound : ∀ e ∈ entries, ∀ c, env.digest c = some e.digest →
    record env.digest c log = some e.record
  complete : ∀ c r, record env.digest c log = some r → r.Current policy t →
    ∃ e ∈ entries, env.digest c = some e.digest ∧ e.record = r

section Agreement
variable {env : Environment} {policy : SessionStorePolicy} {t t' : ℤ} {entries : List Entry}
  {log : List SessionEvent}

theorem expired_iff_current {e : Entry} :
    expired policy t e = false ↔ e.record.Current policy t := expired_eq_false

theorem Agrees.later (h : Agrees env policy t entries log) (ht : t ≤ t') :
    Agrees env policy t' entries log := by
  refine ⟨fun e he => (h.past e he).trans ht,h.sound,?_⟩
  intro c r hr hcur
  apply h.complete c r hr
  have := hcur.1
  have := hcur.2
  constructor <;> omega

theorem Agrees.removeExpired (h : Agrees env policy t entries log) :
    Agrees env policy t (removeExpired policy t entries) log := by
  refine ⟨?_,?_,?_⟩
  · intro e he
    exact h.past e (mem_removeExpired.mp he).1
  · intro e he
    exact h.sound e (mem_removeExpired.mp he).1
  · intro c r hr hcur
    obtain ⟨e,he,hd,rfl⟩ := h.complete c r hr hcur
    exact ⟨e,mem_removeExpired.mpr ⟨he,expired_iff_current.mpr hcur⟩,hd,rfl⟩

/-- Entries dropped from the store leave the map with their evictions. -/
theorem Agrees.evicted (h : Agrees env policy t entries log) (hkeyed : Keyed Entry.digest entries)
    {kept : List Entry} (hkept : ∀ e ∈ kept, e ∈ entries) {dropped : List SessionCredentialDigest}
    (hdropped : ∀ d, d ∈ dropped ↔ ∃ e ∈ entries, e.digest = d ∧ ∀ e' ∈ kept, e'.digest ≠ d) :
    Agrees env policy t kept (dropped.map .evicted ++ log) := by
  have hsame : ∀ e ∈ kept, ∀ c, env.digest c = some e.digest →
      record env.digest c (dropped.map .evicted ++ log) = record env.digest c log := by
    intro e he c hc
    rw [record_evicted,if_neg]
    rintro ⟨d,hd,hcd⟩
    obtain ⟨-,-,-,hnone⟩ := (hdropped d).mp hd
    exact hnone e he (Option.some.inj (hc.symm.trans hcd))
  refine ⟨fun e he => h.past e (hkept e he),?_,?_⟩
  · intro e he c hc
    rw [hsame e he c hc]
    exact h.sound e (hkept e he) c hc
  · intro c r hr hcur
    rw [record_evicted] at hr
    split at hr
    · cases hr
    · rename_i hnot
      obtain ⟨e,he,hd,rfl⟩ := h.complete c r hr hcur
      by_cases hin : ∃ e' ∈ kept, e'.digest = e.digest
      · obtain ⟨e',he',heq⟩ := hin
        exact ⟨e,hkeyed.eq (hkept e' he') he heq ▸ he',hd,rfl⟩
      · refine absurd ⟨e.digest,(hdropped e.digest).mpr ⟨e,he,rfl,?_⟩,hd⟩ hnot
        exact fun e' he' heq => hin ⟨e',he',heq⟩

theorem Agrees.issued (hcodec : Faithful env) (h : Agrees env policy t entries log) {c : Bytes}
    {d : SessionCredentialDigest} (hc : env.digest c = some d) (hfresh : ∀ e ∈ entries, e.digest ≠ d)
    (p : Principal) :
    Agrees env policy t (entries ++ [⟨d,p,t,t⟩]) (.issued c p t :: log) := by
  have hother : ∀ c' d', env.digest c' = some d' → d' ≠ d → c ≠ c' := by
    rintro c' d' hc' hne rfl
    exact hne (Option.some.inj (hc'.symm.trans hc))
  refine ⟨?_,?_,?_⟩
  · intro e he
    rcases List.mem_append.mp he with he | he
    · exact h.past e he
    · rw [List.mem_singleton.mp he]
  · intro e he c' hc'
    rcases List.mem_append.mp he with he | he
    · rw [record,SessionEvent.update,if_neg (hother c' e.digest hc' (hfresh e he))]
      exact h.sound e he c' hc'
    · obtain rfl := List.mem_singleton.mp he
      rw [record,SessionEvent.update,if_pos (hcodec.injective c c' d hc hc')]
      rfl
  · intro c' r hr hcur
    rw [record,SessionEvent.update] at hr
    split at hr
    · rename_i heq
      subst heq
      cases hr
      exact ⟨⟨d,p,t,t⟩,by simp,hc,rfl⟩
    · obtain ⟨e,he,hd,heq⟩ := h.complete c' r hr hcur
      exact ⟨e,List.mem_append_left _ he,hd,heq⟩

theorem Agrees.invalidated (hcodec : Faithful env) (h : Agrees env policy t entries log)
    (hkeyed : Keyed Entry.digest entries) {c : Bytes} {found : Entry}
    (hc : env.digest c = some found.digest) :
    Agrees env policy t (remove Entry.digest found.digest entries) (.invalidated c :: log) := by
  refine ⟨fun e he => h.past e (hkeyed.mem_remove.mp he).1,?_,
    ?_⟩
  · intro e he c' hc'
    obtain ⟨he,hne⟩ := hkeyed.mem_remove.mp he
    have hne' : c ≠ c' := by
      rintro rfl
      exact hne (Option.some.inj (hc'.symm.trans hc))
    rw [record,SessionEvent.update,if_neg hne']
    exact h.sound e he c' hc'
  · intro c' r hr hcur
    rw [record,SessionEvent.update] at hr
    split at hr
    · cases hr
    · rename_i hne
      obtain ⟨e,he,hd,heq⟩ := h.complete c' r hr hcur
      refine ⟨e,hkeyed.mem_remove.mpr ⟨he,fun hk => hne ?_⟩,hd,heq⟩
      exact hcodec.injective c c' found.digest hc (hk ▸ hd)

end Agreement
end SpareNode.Session
