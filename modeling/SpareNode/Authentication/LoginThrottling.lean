import SpareNode.Authentication.AuthenticationService

/-! # Throttled logins

Between two failures with a full count of others from the first on and no success, the count is
either still kept, and then full at the last of them, or has been given up after its cooldown. In
both cases the cooldown has passed since the first.
-/
namespace SpareNode.Authentication
open SpareNode.Application

/-- A steady clock that starts at its epoch or later and never reaches its last time point. -/
structure SteadyClock where
  reading : ℕ → TimePoint
  nonneg : ∀ n, 0 ≤ reading n
  monotone : ∀ n m, n ≤ m → reading n ≤ reading m
  below : ∀ n, reading n < Int64.maxValue

variable {clock : SteadyClock} {s : SharedState} {attempt : Attempt}

theorem SteadyClock.toInt_mono (clock : SteadyClock) {n m : ℕ} (h : n ≤ m) :
    (clock.reading n).toInt ≤ (clock.reading m).toInt := Int64.le_iff_toInt_le.mp (clock.monotone n m h)

theorem SteadyClock.toInt_below (clock : SteadyClock) (n : ℕ) :
    (clock.reading n).toInt < Int64.maxValue.toInt := Int64.lt_iff_toInt_lt.mp (clock.below n)

/-- What holds of a limiter in every run under a policy. -/
structure Counting (policy : AuthenticationRateLimitPolicy) (l : AuthenticationRateLimiter) : Prop where
  same : l.policy = policy
  count : l.consecutiveFailures ≤ policy.maximumFailures
  deadline : 0 ≤ l.blockedUntil.toInt

variable {policy : AuthenticationRateLimitPolicy} {l : AuthenticationRateLimiter}

theorem Counting.start : Counting policy { policy := policy } := ⟨rfl,Nat.zero_le _,Int.le_refl 0⟩

theorem Counting.recordSuccess (h : Counting policy l) : Counting policy l.recordSuccess :=
  ⟨h.same,Nat.zero_le _,Int.le_refl 0⟩

theorem Counting.allows (h : Counting policy l) (now : TimePoint) : Counting policy (l.allows now).2 := by
  rcases l.allows_cases now with ⟨-,heq⟩ | ⟨-,heq⟩ | ⟨-,-,heq⟩
  · rw [heq]
    exact h
  · rw [heq]
    exact h
  · rw [heq]
    exact h.recordSuccess

theorem Counting.recordFailure (h : Counting policy l) (hcooldown : 0 ≤ policy.cooldown) {now : TimePoint}
    (hnow : 0 ≤ now) : Counting policy (l.recordFailure now) := by
  by_cases hroom : l.consecutiveFailures < l.policy.maximumFailures
  · obtain ⟨hsame,hcount,hlast,hmore⟩ :=
      AuthenticationRateLimiter.recordFailure_room hroom hnow (h.same.symm ▸ hcooldown)
    refine ⟨hsame.trans h.same,?_,?_⟩
    · rw [hcount,← h.same]
      exact hroom
    · by_cases hfull : l.consecutiveFailures + 1 = l.policy.maximumFailures
      · have hnow' := Int64.le_iff_toInt_le.mp hnow
        have hcooldown' := Int64.le_iff_toInt_le.mp hcooldown
        rw [hlast hfull,h.same]
        refine le_min ?_ (by decide)
        simp at hnow' hcooldown'
        omega
      · rw [hmore hfull]
        exact h.deadline
  · rw [AuthenticationRateLimiter.recordFailure_full (Nat.not_lt.mp hroom)]
    exact h

theorem Counting.attempted (h : Counting policy s.limiter) (hcooldown : 0 ≤ policy.cooldown) :
    Counting policy (authenticate clock.reading s attempt).state.limiter := by
  have hallows := h.allows (clock.reading s.readings)
  rcases authenticate_cases clock.reading s attempt with ⟨-,heq⟩ | ⟨-,hverdict⟩
  · rw [heq]
    exact hallows
  · cases hverdict with
    | unavailable result recorded unsuccessful state =>
      rw [state]
      exact hallows
    | succeeded credential result recorded success state =>
      rw [state]
      exact hallows.recordSuccess
    | failed result recorded unsuccessful state =>
      rw [state]
      exact hallows.recordFailure hcooldown (clock.nonneg _)

def Outcome.invalid (outcome : Outcome) : Bool :=
  match outcome.result with
  | .error .invalidCredentials => true
  | _ => false

theorem authenticate_recorded (clock : ℕ → TimePoint) (s : SharedState) (attempt : Attempt) :
    (authenticate clock s attempt).recorded.isSome = (authenticate clock s attempt).invalid := by
  rcases authenticate_cases clock s attempt with ⟨-,heq⟩ | ⟨-,hverdict⟩
  · rw [heq]
    rfl
  · cases hverdict with
    | unavailable result recorded unsuccessful state => simp [Outcome.invalid,result,recorded]
    | succeeded credential result recorded success state =>
      rcases result with result | result <;> simp [Outcome.invalid,result,recorded]
    | failed result recorded unsuccessful state => simp [Outcome.invalid,result,recorded]

/-- With `m` failures recorded since a time: the cooldown has passed, or they are all counted and
a full count has a deadline that lets it pass. -/
structure Since (clock : SteadyClock) (policy : AuthenticationRateLimitPolicy) (since : ℤ) (m : ℕ)
    (s : SharedState) : Prop where
  counting : Counting policy s.limiter
  later : since ≤ (clock.reading s.readings).toInt
  passed : since + policy.cooldown.toInt ≤ (clock.reading s.readings).toInt ∨
    (m ≤ s.limiter.consecutiveFailures ∧
      (s.limiter.consecutiveFailures = policy.maximumFailures →
        min (since + policy.cooldown.toInt) Int64.maxValue.toInt ≤ s.limiter.blockedUntil.toInt))

variable {since : ℤ} {m : ℕ}

/-- Time goes on while the limiter is left as it is. -/
theorem Since.wait (h : Since clock policy since m s) {s' : SharedState} (hlimiter : s'.limiter = s.limiter)
    (hreadings : s.readings ≤ s'.readings) : Since clock policy since m s' := by
  have hlater := clock.toInt_mono hreadings
  refine ⟨hlimiter ▸ h.counting,h.later.trans hlater,?_⟩
  rcases h.passed with hpassed | hkept
  · exact .inl (hpassed.trans hlater)
  · rw [hlimiter]
    exact .inr hkept

/-- A full count is given up only after the cooldown. -/
theorem Since.allows (h : Since clock policy since m s)
    (hallowed : (s.limiter.allows (clock.reading s.readings)).1 = true) :
    Since clock policy since m
        { s with
          limiter := (s.limiter.allows (clock.reading s.readings)).2
          readings := s.readings + 1 } ∧
      (since + policy.cooldown.toInt ≤ (clock.reading s.readings).toInt ∨ m < policy.maximumFailures) := by
  have hcounting := h.counting.allows (clock.reading s.readings)
  rcases s.limiter.allows_cases (clock.reading s.readings) with ⟨-,heq⟩ | ⟨hroom,heq⟩ | ⟨hfull,helapsed,heq⟩
  · rw [heq] at hallowed
    exact absurd hallowed (by simp)
  · rw [heq]
    refine ⟨h.wait rfl (Nat.le_succ _),?_⟩
    rcases h.passed with hpassed | ⟨hcounted,-⟩
    · exact .inl hpassed
    · rw [h.counting.same] at hroom
      exact .inr (hcounted.trans_lt hroom)
  · have hpassed : since + policy.cooldown.toInt ≤ (clock.reading s.readings).toInt := by
      rcases h.passed with hpassed | ⟨-,hdeadline⟩
      · exact hpassed
      · rw [h.counting.same] at hfull
        have hdue := (hdeadline (h.counting.count.antisymm hfull)).trans
          (Int64.le_iff_toInt_le.mp helapsed)
        rcases min_le_iff.mp hdue with hdue | hlast
        · exact hdue
        · exact absurd hlast (clock.toInt_below s.readings).not_ge
    have hlater := clock.toInt_mono (Nat.le_succ s.readings)
    exact ⟨⟨hcounting,h.later.trans hlater,.inl (hpassed.trans hlater)⟩,.inl hpassed⟩

/-- A failure is counted on top of those since then. -/
theorem Since.recordFailure (h : Since clock policy since m s) (hcooldown : 0 ≤ policy.cooldown)
    (hroom : s.limiter.consecutiveFailures < policy.maximumFailures) {s' : SharedState}
    (hlimiter : s'.limiter = s.limiter.recordFailure (clock.reading s.readings))
    (hreadings : s.readings ≤ s'.readings) : Since clock policy since (m + 1) s' := by
  have hlater := clock.toInt_mono hreadings
  refine ⟨hlimiter ▸ h.counting.recordFailure hcooldown (clock.nonneg _),h.later.trans hlater,?_⟩
  rcases h.passed with hpassed | ⟨hcounted,-⟩
  · exact .inl (hpassed.trans hlater)
  · rw [← h.counting.same] at hroom
    obtain ⟨-,hcount,hlast,-⟩ := AuthenticationRateLimiter.recordFailure_room hroom
      (clock.nonneg s.readings) (h.counting.same.symm ▸ hcooldown)
    rw [hlimiter,hcount]
    refine .inr ⟨Nat.succ_le_succ hcounted,?_⟩
    intro hfull
    rw [← h.counting.same] at hfull
    rw [hlast hfull,h.counting.same]
    exact min_le_min_right _ (Int.add_le_add_right h.later _)

/-- An attempt without success keeps the account of the failures since a time, and is itself a
failure only before the count is full or after the cooldown. -/
theorem Since.attempted (h : Since clock policy since m s) (hpolicy : 0 < policy.maximumFailures)
    (hcooldown : 0 ≤ policy.cooldown)
    (hresult : (authenticate clock.reading s attempt).succeeded = false) :
    Since clock policy since
        (m + if (authenticate clock.reading s attempt).invalid then 1 else 0)
        (authenticate clock.reading s attempt).state ∧
      ∀ last, (authenticate clock.reading s attempt).recorded = some last →
        since + policy.cooldown.toInt ≤ last.toInt ∨ m < policy.maximumFailures := by
  rcases authenticate_cases clock.reading s attempt with ⟨hallowed,heq⟩ | ⟨hallowed,hverdict⟩
  · have hsame := AuthenticationRateLimiter.allows_of_blocked
      (AuthenticationRateLimiter.allows_eq_false_iff.mp hallowed)
    rw [heq,hsame]
    exact ⟨h.wait rfl (Nat.le_succ _),fun last hlast => absurd hlast (by simp)⟩
  · obtain ⟨hallows,hwhen⟩ := h.allows hallowed
    have hroom := AuthenticationRateLimiter.allows_room (h.counting.same.symm ▸ hpolicy) hallowed
    rw [h.counting.same] at hroom
    cases hverdict with
    | unavailable result recorded unsuccessful state =>
      rw [Outcome.invalid,result,recorded,state]
      exact ⟨hallows,fun last hlast => absurd hlast (by simp)⟩
    | succeeded credential result recorded success state => exact absurd (hresult.symm.trans success) (by simp)
    | failed result recorded unsuccessful state =>
      rw [Outcome.invalid,result,recorded,state]
      refine ⟨hallows.recordFailure hcooldown hroom rfl (Nat.le_succ _),?_⟩
      intro last hlast
      obtain rfl := Option.some.inj hlast
      exact hwhen.imp_left fun hpassed => hpassed.trans (clock.toInt_mono (Nat.le_succ _))

theorem Counting.first (h : Counting policy s.limiter) (hpolicy : 0 < policy.maximumFailures)
    (hcooldown : 0 ≤ policy.cooldown) {first : TimePoint}
    (hfirst : (authenticate clock.reading s attempt).recorded = some first) :
    Since clock policy first.toInt 1 (authenticate clock.reading s attempt).state := by
  rcases authenticate_cases clock.reading s attempt with ⟨-,heq⟩ | ⟨hallowed,hverdict⟩
  · rw [heq] at hfirst
    exact absurd hfirst (by simp)
  · have hroom := AuthenticationRateLimiter.allows_room (h.same.symm ▸ hpolicy) hallowed
    rw [h.same] at hroom
    cases hverdict with
    | unavailable result recorded unsuccessful state => exact absurd (recorded.symm.trans hfirst) (by simp)
    | succeeded credential result recorded success state => exact absurd (recorded.symm.trans hfirst) (by simp)
    | failed result recorded unsuccessful state =>
      obtain rfl := Option.some.inj (recorded.symm.trans hfirst)
      rw [state]
      have hstart : Since clock policy (clock.reading (s.readings + 1)).toInt 0
          ⟨s.dummyVerifier,(s.limiter.allows (clock.reading s.readings)).2,s.readings + 1⟩ := by
        refine ⟨h.allows _,le_rfl,.inr ⟨Nat.zero_le _,?_⟩⟩
        intro hfull
        exact absurd hfull hroom.ne
      exact hstart.recordFailure hcooldown hroom rfl (Nat.le_succ _)

theorem counting_after (hcooldown : 0 ≤ policy.cooldown) (dummyVerifier : Bytes) (attempts : List Attempt) :
    Counting policy (stateAfter clock.reading
      { dummyVerifier := dummyVerifier, limiter := { policy := policy } } attempts).limiter :=
  @stateAfter_induction _ _ (fun s => Counting policy s.limiter) .start
    (fun _ _ h => h.attempted hcooldown) attempts

/-- Attempts without success keep the account of the failures since a time. -/
theorem Since.attempts (h : Since clock policy since m s) (hpolicy : 0 < policy.maximumFailures)
    (hcooldown : 0 ≤ policy.cooldown) {attempts : List Attempt}
    (hresults : ∀ outcome ∈ run clock.reading s attempts, outcome.succeeded = false) :
    Since clock policy since (m + (run clock.reading s attempts).countP Outcome.invalid)
      (stateAfter clock.reading s attempts) := by
  induction attempts generalizing m s with
  | nil => exact h
  | cons attempt attempts ih =>
    have hstep := (h.attempted hpolicy hcooldown (hresults _ List.mem_cons_self)).1
    have hrest := ih hstep fun outcome houtcome => hresults outcome (List.mem_cons_of_mem _ houtcome)
    rw [run,List.countP_cons,Nat.add_comm (List.countP _ _),← Nat.add_assoc]
    exact hrest

/-- Failures that are all recorded within less than the cooldown since a time fit into one count. -/
theorem Since.window (h : Since clock policy since m s) (hpolicy : 0 < policy.maximumFailures)
    (hcooldown : 0 ≤ policy.cooldown) (hm : m ≤ policy.maximumFailures) {attempts : List Attempt}
    (hresults : ∀ outcome ∈ run clock.reading s attempts, outcome.succeeded = false)
    (hwindow : ∀ outcome ∈ run clock.reading s attempts, ∀ last, outcome.recorded = some last →
      last.toInt - since < policy.cooldown.toInt) :
    m + (run clock.reading s attempts).countP Outcome.invalid ≤ policy.maximumFailures := by
  induction attempts generalizing m s with
  | nil => exact hm
  | cons attempt attempts ih =>
    obtain ⟨hstep,hwhen⟩ := h.attempted hpolicy hcooldown (hresults _ List.mem_cons_self)
    rw [run,List.countP_cons,Nat.add_comm (List.countP _ _),← Nat.add_assoc]
    refine ih hstep ?_ (fun outcome houtcome => hresults outcome (List.mem_cons_of_mem _ houtcome))
      fun outcome houtcome => hwindow outcome (List.mem_cons_of_mem _ houtcome)
    split
    · rename_i hinvalid
      rw [← authenticate_recorded] at hinvalid
      obtain ⟨last,hlast⟩ := Option.isSome_iff_exists.mp hinvalid
      have hlate := hwindow _ List.mem_cons_self last hlast
      rcases hwhen last hlast with hpassed | hroom
      · omega
      · exact hroom
    · exact hm

/-- Attempts without success whose failures are all recorded within less than the cooldown. -/
theorem Counting.window (h : Counting policy s.limiter) (hpolicy : 0 < policy.maximumFailures)
    (hcooldown : 0 ≤ policy.cooldown) {attempts : List Attempt}
    (hresults : ∀ outcome ∈ run clock.reading s attempts, outcome.succeeded = false)
    (hwindow : ∀ first ∈ run clock.reading s attempts, ∀ last ∈ run clock.reading s attempts,
      ∀ a b, first.recorded = some a → last.recorded = some b →
        b.toInt - a.toInt < policy.cooldown.toInt) :
    (run clock.reading s attempts).countP Outcome.invalid ≤ policy.maximumFailures := by
  induction attempts generalizing s with
  | nil => exact Nat.zero_le _
  | cons attempt attempts ih =>
    have hrest (outcome : Outcome) (h : outcome ∈ run clock.reading (authenticate clock.reading s attempt).state
        attempts) : outcome ∈ run clock.reading s (attempt :: attempts) := List.mem_cons_of_mem _ h
    rw [run,List.countP_cons]
    split
    · rename_i hinvalid
      rw [← authenticate_recorded] at hinvalid
      obtain ⟨first,hfirst⟩ := Option.isSome_iff_exists.mp hinvalid
      rw [Nat.add_comm]
      exact (h.first hpolicy hcooldown hfirst).window hpolicy hcooldown hpolicy
        (fun outcome houtcome => hresults outcome (hrest outcome houtcome))
        fun outcome houtcome last hlast =>
          hwindow _ List.mem_cons_self outcome (hrest outcome houtcome) first last hfirst hlast
    · exact ih (h.attempted hcooldown) (fun outcome houtcome => hresults outcome (hrest outcome houtcome))
        fun first hfirst last hlast => hwindow first (hrest first hfirst) last (hrest last hlast)

/-- A blocked limiter is the one reason to turn an attempt away, and then nothing is done. -/
theorem authenticate_throttled (clock : ℕ → TimePoint) (s : SharedState) (attempt : Attempt) :
    ((authenticate clock s attempt).result = .error .throttled ↔ s.limiter.Blocked (clock s.readings)) ∧
    (s.limiter.Blocked (clock s.readings) → (authenticate clock s attempt).calls = [] ∧
      (authenticate clock s attempt).state.limiter = s.limiter) := by
  rw [← AuthenticationRateLimiter.allows_eq_false_iff]
  rcases authenticate_cases clock s attempt with ⟨hturned,heq⟩ | ⟨hallowed,hverdict⟩
  · have hsame := AuthenticationRateLimiter.allows_of_blocked
      (AuthenticationRateLimiter.allows_eq_false_iff.mp hturned)
    rw [heq,hsame]
    exact ⟨⟨fun _ => rfl,fun _ => rfl⟩,fun _ => ⟨rfl,rfl⟩⟩
  · rw [hallowed]
    refine ⟨⟨?_,fun h => absurd h (by decide)⟩,fun h => absurd h (by decide)⟩
    intro hthrottled
    cases hverdict with
    | unavailable result recorded unsuccessful state => exact absurd (result.symm.trans hthrottled) (by simp)
    | succeeded credential result recorded success state =>
      rcases result with result | result <;> exact absurd (result.symm.trans hthrottled) (by simp)
    | failed result recorded unsuccessful state => exact absurd (result.symm.trans hthrottled) (by simp)

theorem authenticate_invalid {clock : ℕ → TimePoint}
    (h : (authenticate clock s attempt).result = .error .invalidCredentials) :
    (authenticate clock s attempt).succeeded = false := by
  rcases authenticate_cases clock s attempt with ⟨-,heq⟩ | ⟨-,hverdict⟩
  · rw [heq]
  · cases hverdict with
    | unavailable result recorded unsuccessful state => exact unsuccessful
    | succeeded credential result recorded success state =>
      rcases result with result | result <;> exact absurd (result.symm.trans h) (by simp)
    | failed result recorded unsuccessful state => exact unsuccessful

theorem authenticate_succeeded {clock : ℕ → TimePoint}
    (h : (authenticate clock s attempt).succeeded = true) :
    (authenticate clock s attempt).state.limiter.consecutiveFailures = 0 ∧
      (authenticate clock s attempt).state.limiter.blockedUntil = 0 := by
  rcases authenticate_cases clock s attempt with ⟨-,heq⟩ | ⟨-,hverdict⟩
  · rw [heq] at h
    cases h
  · cases hverdict with
    | unavailable result recorded unsuccessful state => exact absurd (unsuccessful.symm.trans h) (by simp)
    | succeeded credential result recorded success state =>
      rw [state]
      exact ⟨rfl,rfl⟩
    | failed result recorded unsuccessful state => exact absurd (unsuccessful.symm.trans h) (by simp)

/-- The failure that fills the count blocks until its cooldown is over, or until the end of time. -/
theorem Counting.deadline_of_full (h : Counting policy s.limiter) (hpolicy : 0 < policy.maximumFailures)
    (hcooldown : 0 ≤ policy.cooldown) {b : TimePoint}
    (hrecorded : (authenticate clock.reading s attempt).recorded = some b)
    (hfull : (authenticate clock.reading s attempt).state.limiter.consecutiveFailures =
      policy.maximumFailures) :
    (authenticate clock.reading s attempt).state.limiter.blockedUntil.toInt =
      min (b.toInt + policy.cooldown.toInt) Int64.maxValue.toInt := by
  rcases authenticate_cases clock.reading s attempt with ⟨-,heq⟩ | ⟨hallowed,hverdict⟩
  · rw [heq] at hrecorded
    exact absurd hrecorded (by simp)
  · have hroom := AuthenticationRateLimiter.allows_room (h.same.symm ▸ hpolicy) hallowed
    have hallows := h.allows (clock.reading s.readings)
    cases hverdict with
    | unavailable result recorded unsuccessful state => exact absurd (recorded.symm.trans hrecorded) (by simp)
    | succeeded credential result recorded success state => exact absurd (recorded.symm.trans hrecorded) (by simp)
    | failed result recorded unsuccessful state =>
      obtain rfl := Option.some.inj (recorded.symm.trans hrecorded)
      rw [h.same,← hallows.same] at hroom
      obtain ⟨-,hcount,hlast,-⟩ := AuthenticationRateLimiter.recordFailure_room hroom
        (clock.nonneg (s.readings + 1)) (hallows.same.symm ▸ hcooldown)
      rw [state] at hfull ⊢
      rw [← hallows.same] at hfull
      rw [hlast (hcount.symm.trans hfull),hallows.same]

/-- Logins are throttled over whole runs: a full count of failures and one more, without a success
between the first and the last, take the cooldown at least; a blocked limiter turns attempts away
with no lookup and no verification, and only until its deadline; a success starts a new count, and
the deadline is cut off at the last time point. -/
theorem logins_throttled (clock : SteadyClock) (policy : AuthenticationRateLimitPolicy)
    (hpolicy : 0 < policy.maximumFailures) (hcooldown : 0 < policy.cooldown) (dummyVerifier : Bytes)
    (attempts : List Attempt) :
    let s := stateAfter clock.reading
      { dummyVerifier := dummyVerifier, limiter := { policy := policy } } attempts
    (∀ first middle last,
      let opening := authenticate clock.reading s first
      let between := run clock.reading opening.state middle
      let closing := authenticate clock.reading (stateAfter clock.reading opening.state middle) last
      opening.result = .error .invalidCredentials → closing.result = .error .invalidCredentials →
        (∀ outcome ∈ between, outcome.succeeded = false) →
        policy.maximumFailures + 1 ≤ 1 + between.countP Outcome.invalid + 1 →
        ∃ a b, opening.recorded = some a ∧ closing.recorded = some b ∧
          policy.cooldown.toInt ≤ b.toInt - a.toInt) ∧
    (∀ window,
      (∀ outcome ∈ run clock.reading s window, outcome.succeeded = false) →
      (∀ first ∈ run clock.reading s window, ∀ last ∈ run clock.reading s window, ∀ a b,
        first.recorded = some a → last.recorded = some b → b.toInt - a.toInt < policy.cooldown.toInt) →
      (run clock.reading s window).countP Outcome.invalid ≤ policy.maximumFailures) ∧
    ∀ attempt,
      let now := clock.reading s.readings
      let outcome := authenticate clock.reading s attempt
      (outcome.result = .error .throttled ↔ s.limiter.Blocked now) ∧
      (s.limiter.Blocked now → outcome.calls = [] ∧ outcome.state.limiter = s.limiter) ∧
      (s.limiter.blockedUntil ≤ now → outcome.result ≠ .error .throttled) ∧
      outcome.result.isOk = (outcome.succeeded && attempt.copied) ∧
      (outcome.succeeded = true →
        outcome.state.limiter.consecutiveFailures = 0 ∧ outcome.state.limiter.blockedUntil = 0) ∧
      (∀ b, outcome.recorded = some b →
        outcome.state.limiter.consecutiveFailures = policy.maximumFailures →
        outcome.state.limiter.blockedUntil.toInt =
          min (b.toInt + policy.cooldown.toInt) Int64.maxValue.toInt) := by
  intro s
  have hcooldown' : 0 ≤ policy.cooldown := Int64.le_of_lt hcooldown
  have hcounting : Counting policy s.limiter := counting_after hcooldown' dummyVerifier attempts
  have hrecorded {s : SharedState} {attempt : Attempt}
      (h : (authenticate clock.reading s attempt).result = .error .invalidCredentials) :
      ∃ b, (authenticate clock.reading s attempt).recorded = some b := by
    rw [← Option.isSome_iff_exists,authenticate_recorded,Outcome.invalid,h]
  refine ⟨?_,
    fun window hresults hwindow => hcounting.window hpolicy hcooldown' hresults hwindow,
    ?_⟩
  · intro first middle last
    dsimp only
    intro hfirst hlast hmiddle hcount
    obtain ⟨a,ha⟩ := hrecorded hfirst
    obtain ⟨b,hb⟩ := hrecorded hlast
    refine ⟨a,b,ha,hb,?_⟩
    have hsince := (hcounting.first hpolicy hcooldown' ha).attempts hpolicy hcooldown' hmiddle
    have hopen : (authenticate clock.reading (stateAfter clock.reading
        (authenticate clock.reading s first).state middle) last).succeeded = false :=
      authenticate_invalid hlast
    have hfailed := (hsince.attempted hpolicy hcooldown' hopen).2 b hb
    omega
  · intro attempt
    obtain ⟨hthrottled,hnothing⟩ := authenticate_throttled clock.reading s attempt
    refine ⟨hthrottled,hnothing,?_,(authenticate_success clock.reading s attempt).1,authenticate_succeeded,
      fun b hb hfull => hcounting.deadline_of_full hpolicy hcooldown' hb hfull⟩
    intro hlate h
    exact absurd (hthrottled.mp h).2 (Int64.not_lt.mpr hlate)

/-- Five ticks for the first attempt, and twenty from then on. -/
def laterClock : SteadyClock where
  reading n := if n ≤ 1 then 5 else 20
  nonneg n := by split <;> decide
  monotone n m h := by
    split
    · split <;> decide
    · rw [if_neg (by omega)]
      decide
  below n := by split <;> decide

def unknownLogin : Attempt := ⟨[],[],fun _ => .ok none,fun _ _ => .ok false,true⟩

theorem logins_throttled_twice :
    ∃ a b, (authenticate laterClock.reading ⟨[],{ policy := ⟨1,10⟩ },0⟩ unknownLogin).recorded = some a ∧
      (authenticate laterClock.reading
        (authenticate laterClock.reading ⟨[],{ policy := ⟨1,10⟩ },0⟩ unknownLogin).state
        unknownLogin).recorded = some b ∧ (10 : Int64).toInt ≤ b.toInt - a.toInt :=
  (logins_throttled laterClock ⟨1,10⟩ (by decide) (by decide) [] []).1 unknownLogin [] unknownLogin rfl rfl
    (by simp [run]) (by decide)

end SpareNode.Authentication
