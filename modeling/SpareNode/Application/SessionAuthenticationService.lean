import SpareNode.Session.SessionStoreRuns

/-! # Login and logout over the session store

`login` verifies the submitted credentials, invalidates the session presented with the
request and creates a new one. The verification is an argument: its outcome is whatever
`AuthenticationService::authenticate` returned.
-/
namespace SpareNode.Application
open SpareNode.Session KeyedList

inductive AuthenticationErrorCode where
  | invalidCredentials | throttled | unavailable
deriving DecidableEq, Repr

inductive SessionLoginErrorCode where
  | invalidCredentials | throttled | unavailable
deriving DecidableEq, Repr

inductive SessionLogoutErrorCode where
  | unavailable
deriving DecidableEq, Repr

def loginError : AuthenticationErrorCode → SessionLoginErrorCode
  | .invalidCredentials => .invalidCredentials
  | .throttled => .throttled
  | .unavailable => .unavailable

def login (env : Environment) (authenticated : Except AuthenticationErrorCode Principal)
    (previousSession : Bytes) (s : SessionStore) :
    Except SessionLoginErrorCode Bytes × SessionStore :=
  match authenticated with
  | .error code => (.error (loginError code),s)
  | .ok principal =>
    match if previousSession.isEmpty then (.ok none,s) else s.invalidate env previousSession with
    | (.error _,s') => (.error .unavailable,s')
    | (.ok _,s') =>
      match s'.createSession env principal with
      | (.error _,s'') => (.error .unavailable,s'')
      | (.ok credential,s'') => (.ok credential,s'')

def logout (env : Environment) (credential : Bytes) (s : SessionStore) :
    Except SessionLogoutErrorCode (Option Principal) × SessionStore :=
  match s.invalidate env credential with
  | (.error _,s') => (.error .unavailable,s')
  | (.ok principal,s') => (.ok principal,s')

/-- What the store answers, as far as memory goes, when the session of a digest authenticates next. -/
def authenticates (env : Environment) (s : SessionStore) (d : SessionCredentialDigest) :
    Option Principal :=
  (authenticateSection s.policy (env.clock s.readings) d s.entries).1

/-- The sessions that are live when the next reading of the clock is taken. -/
def liveSessions (env : Environment) (s : SessionStore) : List Entry :=
  removeExpired s.policy (env.clock s.readings) s.entries

/-- A login reads the clock at most once to invalidate and once for each attempt to create. -/
def loginReadings : ℕ := 1 + SessionStore.maximumGenerationAttempts

/-- From the start of the login to the reading after it no session expires. -/
structure NoExpiry (env : Environment) (s : SessionStore) : Prop where
  retained : ∀ n, s.readings ≤ n → n ≤ s.readings + loginReadings → ∀ e ∈ liveSessions env s,
    expired s.policy (env.clock n) e = false
  created : ∀ k n, s.readings ≤ k → k ≤ n → n ≤ s.readings + loginReadings →
    env.clock n - env.clock k < s.policy.absoluteLifetime ∧
    env.clock n - env.clock k < s.policy.idleTimeout

/-- The generator does not repeat a credential the store knows, and reports true digests. -/
structure FreshGenerator (env : Environment) (s : SessionStore) : Prop where
  reported : ∀ n c d, env.generate n = .generated c d → env.digest c = some d
  fresh : ∀ n c d, s.generations ≤ n → env.generate n = .generated c d → ∀ e ∈ s.entries, e.digest ≠ d

section Liveness
variable {env : Environment} {s : SessionStore} {d : SessionCredentialDigest}

theorem authenticates_eq : authenticates env s d =
    (lookup Entry.digest d (liveSessions env s)).map Entry.principal := by
  simp only [authenticates,authenticateSection,liveSessions]
  cases lookup Entry.digest d (removeExpired s.policy (env.clock s.readings) s.entries) <;> rfl

theorem authenticates_of_mem {e : Entry} (he : e ∈ s.entries)
    (hlive : expired s.policy (env.clock s.readings) e = false) :
    authenticates env s e.digest = some e.principal := by
  have hkeyed := (s.wellFormed.removeExpired (env.clock s.readings)).distinct
  rw [authenticates_eq,Option.map_eq_some_iff]
  exact ⟨e,hkeyed.lookup_eq_some_iff.mpr ⟨mem_removeExpired.mpr ⟨he,hlive⟩,rfl⟩,rfl⟩

theorem authenticates_none (h : ∀ e ∈ s.entries, e.digest ≠ d) : authenticates env s d = none := by
  rw [authenticates_eq,Option.map_eq_none_iff,lookup_eq_none_iff]
  exact fun e he => h e (mem_removeExpired.mp he).1

end Liveness

section Stages
variable {env : Environment} {s : SessionStore}

/-- The presented session is invalidated once the submitted credentials are verified, when its digest
and the memory for its principal are there. -/
def Presented (env : Environment) (authenticated : Except AuthenticationErrorCode Principal)
    (previousSession : Bytes) (s : SessionStore) (e : Entry) : Prop :=
  authenticated.isOk = true ∧ previousSession ≠ [] ∧ Supplied env s ∧
    env.digest previousSession = some e.digest

instance (authenticated : Except AuthenticationErrorCode Principal) (previousSession : Bytes)
    (e : Entry) : Decidable (Presented env authenticated previousSession s e) := by
  unfold Presented Supplied
  infer_instance

/-- What `login` knows of the store between its two updates. -/
structure Released (env : Environment) (previousSession : Bytes) (s s' : SessionStore) : Prop where
  policy : s'.policy = s.policy
  generations : s'.generations = s.generations
  readings : s.readings ≤ s'.readings ∧ s'.readings ≤ s.readings + 1
  subset : ∀ e ∈ s'.entries, e ∈ s.entries
  kept : ∀ e ∈ liveSessions env s, e ∈ s'.entries ∨ previousSession ≠ [] ∧ Supplied env s ∧
    env.digest previousSession = some e.digest
  gone : previousSession ≠ [] → ∀ e ∈ s'.entries, env.digest previousSession ≠ some e.digest

/-- What `login` knows of a store that could not release the presented session. -/
structure Retained (env : Environment) (s s' : SessionStore) : Prop where
  unsupplied : ¬Supplied env s
  policy : s'.policy = s.policy
  readings : s.readings ≤ s'.readings ∧ s'.readings ≤ s.readings + 1
  kept : ∀ e ∈ liveSessions env s, e ∈ s'.entries

/-- A presented credential is released, or it cannot be digested or its principal not be copied, and
every live session stays. -/
theorem invalidate_released (env : Environment) (s : SessionStore) (previousSession : Bytes)
    (hprevious : previousSession ≠ []) :
    (∃ code, (s.invalidate env previousSession).1 = .error code ∧
      Retained env s (s.invalidate env previousSession).2) ∨
    ∃ found, (s.invalidate env previousSession).1 = .ok found ∧
      Released env previousSession s (s.invalidate env previousSession).2 := by
  have hlive : ∀ e ∈ liveSessions env s, e ∈ s.entries := fun e he => (mem_removeExpired.mp he).1
  unfold SessionStore.invalidate Environment.digestCall
  dsimp only
  cases hup : env.unavailable s.digests with
  | true =>
    exact Or.inl ⟨_,rfl,fun h => absurd h.1 (by simp [hup]),rfl,⟨le_rfl,Nat.le_succ _⟩,hlive⟩
  | false =>
    cases hd : env.digest previousSession with
    | none =>
      refine Or.inr ⟨none,rfl,rfl,rfl,⟨le_rfl,Nat.le_succ _⟩,fun e he => he,?_,?_⟩
      · exact fun e he => Or.inl (hlive e he)
      · intro _ e _
        rw [hd]
        simp
    | some d =>
      have hkeyed := (s.wellFormed.removeExpired (env.clock s.readings)).distinct
      cases hl : lookup Entry.digest d (removeExpired s.policy (env.clock s.readings) s.entries) with
      | none =>
        simp only [Bool.false_eq_true,↓reduceIte,invalidateSection,hl]
        refine Or.inr ⟨none,rfl,rfl,rfl,⟨Nat.le_succ _,le_rfl⟩,?_,?_,?_⟩
        · exact fun e he => (mem_removeExpired.mp he).1
        · exact fun e he => Or.inl he
        · intro _ e he heq
          rw [hd] at heq
          exact lookup_eq_none_iff.mp hl e he (Option.some.inj heq).symm
      | some found =>
        simp only [Bool.false_eq_true,↓reduceIte,invalidateSection,hl]
        by_cases hcopy : env.exhausted s.readings = true
        · refine Or.inl ⟨_,Environment.copied_exhausted hcopy _,?_,rfl,⟨Nat.le_succ _,le_rfl⟩,?_⟩
          · exact fun h => absurd h.2 (by simp [hcopy])
          · intro e he
            simp only [SessionStore.unlock,if_pos hcopy]
            exact he
        · have hsupplied : Supplied env s := ⟨hup,Bool.not_eq_true _ ▸ hcopy⟩
          refine Or.inr ⟨_,Environment.copied_some hsupplied.2 _,rfl,rfl,⟨Nat.le_succ _,le_rfl⟩,?_,?_,?_⟩
          all_goals simp only [SessionStore.unlock,if_neg hcopy]
          · exact fun e he => (mem_removeExpired.mp (hkeyed.mem_remove.mp he).1).1
          · intro e he
            by_cases hk : e.digest = d
            · exact Or.inr ⟨hprevious,hsupplied,by rw [hd,hk]⟩
            · exact Or.inl (hkeyed.mem_remove.mpr ⟨he,hk⟩)
          · intro _ e he heq
            rw [hd] at heq
            exact (hkeyed.mem_remove.mp he).2 (Option.some.inj heq).symm

theorem createSession_fresh (principal : Principal)
    (hfresh : ∀ c d, env.generate s.generations = .generated c d → ∀ e ∈ s.entries, e.digest ≠ d) :
    (∃ code, s.createSession env principal = (.error code,{ s with generations := s.generations + 1 })) ∨
    ∃ c d after, env.generate s.generations = .generated c d ∧
      s.createSession env principal = (.ok c,after) ∧ after.policy = s.policy ∧
      after.readings = s.readings + 1 ∧ after.entries = evictLeastRecentIfFull s.policy
        (liveSessions env s) ++ [⟨d,principal,env.clock s.readings,env.clock s.readings⟩] := by
  unfold SessionStore.createSession SessionStore.maximumGenerationAttempts
  rw [SessionStore.createAttempts]
  dsimp only
  cases hg : env.generate s.generations with
  | failed code => exact Or.inl ⟨.credentialGenerationFailed,rfl⟩
  | badAlloc => exact Or.inl ⟨.resourceAllocationFailed,rfl⟩
  | generated c d =>
    right
    have hc : contains (removeExpired s.policy (env.clock s.readings) s.entries) d = false := by
      rw [contains_eq_false]
      exact fun e he => hfresh c d hg e (mem_removeExpired.mp he).1
    have hsection : createSection s.policy (env.clock s.readings) d principal s.entries =
        (some principal,evictLeastRecentIfFull s.policy (liveSessions env s) ++
          [⟨d,principal,env.clock s.readings,env.clock s.readings⟩]) := by
      simp [createSection,hc,liveSessions]
    simp only [hsection]
    exact ⟨c,d,_,rfl,rfl,rfl,rfl,rfl⟩

theorem released_self : Released env [] s s where
  policy := rfl
  generations := rfl
  readings := ⟨le_rfl,Nat.le_succ _⟩
  subset := fun _ he => he
  kept := fun _ he => Or.inl (mem_removeExpired.mp he).1
  gone := fun h => absurd rfl h

end Stages

section Login
variable {env : Environment} {s s' : SessionStore} {principal : Principal} {previousSession : Bytes}

/-- A session released before a failed creation is gone; the others still authenticate. -/
theorem failed_after_release (hexpiry : NoExpiry env s) (h : Released env previousSession s s')
    {after : SessionStore} (hpolicy : after.policy = s'.policy) (hreadings : after.readings = s'.readings)
    (hentries : after.entries = s'.entries) : ∀ e ∈ liveSessions env s,
      authenticates env after e.digest =
        if Presented env (.ok principal) previousSession s e then none else some e.principal := by
  intro e he
  have hr := h.readings
  split
  · rename_i hpresented
    obtain ⟨-,hprevious,-,hd⟩ := hpresented
    apply authenticates_none
    intro e' he' heq
    exact h.gone hprevious e' (hentries ▸ he') (heq ▸ hd)
  · rename_i hkept
    rcases h.kept e he with hmem | hpresented
    · apply authenticates_of_mem (hentries ▸ hmem)
      rw [hpolicy,h.policy,hreadings]
      refine hexpiry.retained s'.readings hr.1 ?_ e he
      simp only [loginReadings,SessionStore.maximumGenerationAttempts]
      omega
    · exact absurd ⟨rfl,hpresented⟩ hkept

/-- After a creation the new session authenticates and the released one does not. -/
theorem created_after_release (hexpiry : NoExpiry env s) (hgen : FreshGenerator env s)
    (h : Released env previousSession s s') {c : Bytes} {d : SessionCredentialDigest}
    (hg : env.generate s'.generations = .generated c d) {after : SessionStore}
    (hpolicy : after.policy = s'.policy) (hreadings : after.readings = s'.readings + 1)
    (hentries : after.entries = evictLeastRecentIfFull s'.policy (liveSessions env s') ++
      [⟨d,principal,env.clock s'.readings,env.clock s'.readings⟩]) :
    (previousSession ≠ [] → ∀ e ∈ s.entries, env.digest previousSession = some e.digest →
      authenticates env after e.digest = none) ∧
    authenticates env after d = some principal := by
  have hr := h.readings
  have hfresh := hgen.fresh s'.generations c d h.generations.ge hg
  constructor
  · intro hprevious e he hd
    apply authenticates_none
    intro e' he' heq
    rw [hentries] at he'
    rcases List.mem_append.mp he' with he' | he'
    · have hmem := (mem_removeExpired.mp (evict_sublist.subset he')).1
      exact h.gone hprevious e' hmem (heq ▸ hd)
    · rw [List.mem_singleton.mp he'] at heq
      exact hfresh e he heq.symm
  · have hmem : (⟨d,principal,env.clock s'.readings,env.clock s'.readings⟩ : Entry) ∈ after.entries := by
      rw [hentries]
      simp
    apply authenticates_of_mem hmem
    rw [hpolicy,h.policy,hreadings,expired_eq_false]
    apply hexpiry.created s'.readings (s'.readings + 1) hr.1 (Nat.le_succ _)
    simp only [loginReadings,SessionStore.maximumGenerationAttempts]
    omega

/-- The second half of `login`, from the store in which the presented session is released. -/
theorem create_after_release (principal : Principal) (hexpiry : NoExpiry env s)
    (hgen : FreshGenerator env s) (h : Released env previousSession s s') :
    (∃ code after, s'.createSession env principal = (.error code,after) ∧
      ∀ e ∈ liveSessions env s, authenticates env after e.digest =
        if Presented env (.ok principal) previousSession s e then none else some e.principal) ∨
    ∃ c after, s'.createSession env principal = (.ok c,after) ∧
      (previousSession ≠ [] → ∀ e ∈ s.entries, env.digest previousSession = some e.digest →
        authenticates env after e.digest = none) ∧
      ∃ d, env.digest c = some d ∧ authenticates env after d = some principal := by
  have hfresh : ∀ c d, env.generate s'.generations = .generated c d →
      ∀ e ∈ s'.entries, e.digest ≠ d := by
    intro c d hg e he
    exact hgen.fresh s'.generations c d h.generations.ge hg e (h.subset e he)
  rcases createSession_fresh principal hfresh with ⟨code,heq⟩ |
    ⟨c,d,after,hg,heq,hpolicy,hreadings,hentries⟩
  · exact Or.inl ⟨code,_,heq,failed_after_release hexpiry h rfl rfl rfl⟩
  · obtain ⟨hprevious,hnew⟩ := created_after_release hexpiry hgen h hg hpolicy hreadings hentries
    exact Or.inr ⟨c,after,heq,hprevious,d,hgen.reported _ c d hg,hnew⟩

end Login

def Replaces (env : Environment) (authenticated : Except AuthenticationErrorCode Principal)
    (previousSession : Bytes) (s : SessionStore) (credential : Bytes) (after : SessionStore) : Prop :=
  (previousSession ≠ [] → ∀ e ∈ s.entries, env.digest previousSession = some e.digest →
    authenticates env after e.digest = none) ∧
  ∃ principal d, authenticated = .ok principal ∧ env.digest credential = some d ∧
    authenticates env after d = some principal

/-- A failed login leaves every live session authenticating as before, a successful one replaces
the presented session. -/
def LoginAtomic (env : Environment) (authenticated : Except AuthenticationErrorCode Principal)
    (previousSession : Bytes) (s : SessionStore) : Prop :=
  match login env authenticated previousSession s with
  | (.error _,after) => ∀ e ∈ liveSessions env s, authenticates env after e.digest = some e.principal
  | (.ok credential,after) => Replaces env authenticated previousSession s credential after

/-- A failed login costs at most the presented session, and that one exactly when the submitted
credentials were verified, its digest was available and its principal could be copied. -/
theorem login_sessions (env : Environment)
    (authenticated : Except AuthenticationErrorCode Principal) (previousSession : Bytes)
    (s : SessionStore) (hgen : FreshGenerator env s) (hexpiry : NoExpiry env s) :
    match login env authenticated previousSession s with
    | (.error _,after) => ∀ e ∈ liveSessions env s, authenticates env after e.digest =
        if Presented env authenticated previousSession s e then none else some e.principal
    | (.ok credential,after) => Replaces env authenticated previousSession s credential after := by
  have hkeep : ∀ e ∈ liveSessions env s, authenticates env s e.digest = some e.principal :=
    fun e he => authenticates_of_mem (mem_removeExpired.mp he).1 (mem_removeExpired.mp he).2
  cases authenticated with
  | error code =>
    simp only [login]
    intro e he
    rw [hkeep e he,if_neg]
    rintro ⟨hok,-⟩
    cases hok
  | ok principal =>
    -- Both ways to reach the creation leave a released store.
    have hsecond : ∀ found s', Released env previousSession s s' →
        (if previousSession.isEmpty then (.ok none,s) else s.invalidate env previousSession) =
          (.ok found,s') →
        match login env (.ok principal) previousSession s with
        | (.error _,after) => ∀ e ∈ liveSessions env s, authenticates env after e.digest =
            if Presented env (.ok principal) previousSession s e then none else some e.principal
        | (.ok credential,after) => Replaces env (.ok principal) previousSession s credential after := by
      intro found s' hreleased hstage
      rcases create_after_release principal hexpiry hgen hreleased with ⟨code,after,heq,hlost⟩ |
        ⟨c,after,heq,hprevious,d,hd,hnew⟩
      · simp only [login,hstage,heq]
        exact hlost
      · simp only [login,hstage,heq]
        exact ⟨hprevious,principal,d,rfl,hd,hnew⟩
    by_cases hprevious : previousSession = []
    · subst hprevious
      exact hsecond none s released_self rfl
    · have hempty : previousSession.isEmpty = false := by simpa using hprevious
      rcases invalidate_released env s previousSession hprevious with
        ⟨code,heq,hretained⟩ | ⟨found,hfound,hreleased⟩
      · rcases hpair : s.invalidate env previousSession with ⟨found,after⟩
        rw [hpair] at heq hretained
        obtain rfl : found = .error code := heq
        simp only [login,hempty,Bool.false_eq_true,↓reduceIte,hpair]
        intro e he
        rw [if_neg fun hpresented => hretained.unsupplied hpresented.2.2.1]
        apply authenticates_of_mem (hretained.kept e he)
        rw [hretained.policy]
        refine hexpiry.retained after.readings hretained.readings.1 ?_ e he
        have hread : after.readings ≤ s.readings + 1 := hretained.readings.2
        simp only [loginReadings,SessionStore.maximumGenerationAttempts]
        omega
      · apply hsecond found _ hreleased
        rw [hempty,← hfound]
        rfl

/-- A generator that fails after its first credential, at a clock that stands still. -/
def failingGenerator : Environment where
  clock _ := 0
  generate n := if n = 0 then .generated (Vector.replicate 32 7).toList (Vector.replicate 32 7)
    else .failed .cryptographyUnavailable
  digest := identityDigest
  unavailable _ := false
  exhausted _ := false

def soleSession : SessionStore where
  policy := {}
  valid := by decide
  entries := [⟨Vector.replicate 32 7,owner,0,0⟩]
  wellFormed := ⟨by decide,List.nodup_singleton _⟩
  readings := 1
  generations := 1
  digests := 0

theorem failingGenerator_fresh : FreshGenerator failingGenerator soleSession := by
  constructor
  · intro n c d h
    by_cases hn : n = 0
    · simp only [failingGenerator,hn,↓reduceIte,GenerateOutcome.generated.injEq] at h
      obtain ⟨rfl,rfl⟩ := h
      exact (identityDigest_eq_some_iff (d := Vector.replicate 32 7)).mpr rfl
    · simp [failingGenerator,hn] at h
  · intro n c d hn h
    have hn : n ≠ 0 := Nat.one_le_iff_ne_zero.mp hn
    simp [failingGenerator,hn] at h

theorem soleSession_noExpiry : NoExpiry failingGenerator soleSession :=
  ⟨fun _ _ _ e he => (mem_removeExpired.mp he).2,fun _ _ _ _ _ => by simp [failingGenerator,soleSession]⟩

/-- The owner logs in again and presents the live session; generation fails after the
invalidation, and the failed login has ended the session. -/
theorem login_loses_presented : FreshGenerator failingGenerator soleSession ∧
    NoExpiry failingGenerator soleSession ∧
    ¬LoginAtomic failingGenerator (.ok owner) (Vector.replicate 32 7).toList soleSession := by
  refine ⟨failingGenerator_fresh,soleSession_noExpiry,?_⟩
  intro h
  have hlive := h ⟨Vector.replicate 32 7,owner,0,0⟩ (by decide)
  exact absurd hlive (by decide)

/-- The same request with wrong credentials costs nothing. -/
theorem login_sessions_rejected :
    authenticates failingGenerator soleSession (Vector.replicate 32 7) = some owner :=
  login_sessions failingGenerator (.error .invalidCredentials) (Vector.replicate 32 7).toList
    soleSession failingGenerator_fresh soleSession_noExpiry ⟨Vector.replicate 32 7,owner,0,0⟩ (by decide)

end SpareNode.Application
