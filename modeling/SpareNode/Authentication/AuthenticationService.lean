import SpareNode.Application.SessionAuthenticationService
import SpareNode.Authentication.AuthenticationRateLimiter
import SpareNode.Authentication.FileAuthentication

/-! # Verifying submitted credentials

`AuthenticationService` over its shared state. Attempts hold the lock from their first reading of
the clock to their end, so that a run is a list of them. The credential source and the verification
are ports, with what they answer in an attempt; an exception of theirs ends it as an error of theirs does.
-/
namespace SpareNode.Authentication
open SpareNode.Application SpareNode.Session

inductive CredentialProviderErrorCode where
  | unavailable | resourceExhausted
deriving DecidableEq, Repr

structure AuthenticatedCredential where
  principal : Principal
  canonicalLogin : Bytes
deriving DecidableEq, Repr

inductive AuthenticationServiceCreateErrorCode where
  | missingProvider | verifierUnavailable | invalidRateLimitPolicy
deriving DecidableEq, Repr

/-- `AuthenticationService::SharedState` without its ports, with the readings of the clock so far. -/
structure SharedState where
  dummyVerifier : Bytes
  limiter : AuthenticationRateLimiter
  readings : ℕ := 0
deriving DecidableEq, Repr

/-- `AuthenticationService::create`; `none` stands for a null pointer. -/
def createAuthenticationService (hasProvider : Bool) (verifier : Option PasswordVerifier)
    (rateLimitPolicy : AuthenticationRateLimitPolicy) :
    Except AuthenticationServiceCreateErrorCode SharedState :=
  if !hasProvider then .error .missingProvider
  else
    match verifier with
    | none => .error .verifierUnavailable
    | some verifier =>
      if rateLimitPolicy.maximumFailures = 0 ∨ rateLimitPolicy.cooldown ≤ 0 then
        .error .invalidRateLimitPolicy
      else
        match verifier.hash dummyPassword with
        | .error _ => .error .verifierUnavailable
        | .ok dummyVerifier => .ok { dummyVerifier := dummyVerifier, limiter := { policy := rateLimitPolicy } }

/-- A submitted login with the answers of the ports, and whether there is memory for the credential
that a success returns. -/
structure Attempt where
  login : Bytes
  password : Bytes
  findByLogin : Bytes → Except CredentialProviderErrorCode (Option CredentialRecord)
  verify : Bytes → Bytes → Except PasswordVerifierErrorCode Bool
  copied : Bool

/-- The copies of a credential that a success returns. -/
def Attempt.answer (attempt : Attempt) (credential : CredentialRecord) :
    Except AuthenticationErrorCode AuthenticatedCredential :=
  if attempt.copied then .ok ⟨⟨credential.identity⟩,credential.canonicalLogin⟩ else .error .unavailable

inductive PortCall where
  | findByLogin (login : Bytes)
  | verify (password encodedVerifier : Bytes)
deriving DecidableEq, Repr

/-- How an attempt ends, with the calls that it made, the reading that counted its failure and
whether it was recorded as a success. -/
structure Outcome where
  result : Except AuthenticationErrorCode AuthenticatedCredential
  calls : List PortCall
  recorded : Option TimePoint
  succeeded : Bool
  state : SharedState

def encodedVerifier (s : SharedState) : Option CredentialRecord → Bytes
  | some credential => credential.encodedPasswordVerifier
  | none => s.dummyVerifier

def authenticate (clock : ℕ → TimePoint) (s : SharedState) (attempt : Attempt) : Outcome :=
  let (allowed,limiter) := s.limiter.allows (clock s.readings)
  let s := { s with limiter := limiter, readings := s.readings + 1 }
  if !allowed then ⟨.error .throttled,[],none,false,s⟩
  else
    match attempt.findByLogin attempt.login with
    | .error _ => ⟨.error .unavailable,[.findByLogin attempt.login],none,false,s⟩
    | .ok credential =>
      let calls := [.findByLogin attempt.login,.verify attempt.password (encodedVerifier s credential)]
      match attempt.verify attempt.password (encodedVerifier s credential) with
      | .error _ => ⟨.error .unavailable,calls,none,false,s⟩
      | .ok matches_ =>
        match credential, matches_ with
        | some credential, true =>
          -- The success is recorded before the credential is copied.
          ⟨attempt.answer credential,calls,none,true,{ s with limiter := s.limiter.recordSuccess }⟩
        | _, _ =>
          let now := clock s.readings
          ⟨.error .invalidCredentials,calls,some now,false,
            { s with limiter := s.limiter.recordFailure now, readings := s.readings + 1 }⟩

def run (clock : ℕ → TimePoint) : SharedState → List Attempt → List Outcome
  | _, [] => []
  | s, attempt :: attempts =>
    let outcome := authenticate clock s attempt
    outcome :: run clock outcome.state attempts

def stateAfter (clock : ℕ → TimePoint) (s : SharedState) (attempts : List Attempt) : SharedState :=
  attempts.foldl (fun s attempt => (authenticate clock s attempt).state) s

variable {clock : ℕ → TimePoint} {s : SharedState} {attempt : Attempt}

/-- A created service has a usable policy and an empty count. -/
theorem createAuthenticationService_ok {hasProvider : Bool} {verifier : Option PasswordVerifier}
    {policy : AuthenticationRateLimitPolicy}
    (h : createAuthenticationService hasProvider verifier policy = .ok s) :
    0 < policy.maximumFailures ∧ 0 < policy.cooldown ∧
      ∃ dummyVerifier, s = { dummyVerifier := dummyVerifier, limiter := { policy := policy } } := by
  unfold createAuthenticationService at h
  split at h
  · cases h
  · split at h
    · cases h
    · split at h
      · cases h
      · rename_i hpolicy
        rw [not_or] at hpolicy
        split at h
        · cases h
        · cases h
          exact ⟨Nat.pos_of_ne_zero hpolicy.1,Int64.not_le.mp hpolicy.2,_,rfl⟩

theorem Attempt.answer_cases (attempt : Attempt) (credential : CredentialRecord) :
    attempt.answer credential = .ok ⟨⟨credential.identity⟩,credential.canonicalLogin⟩ ∨
      attempt.answer credential = .error .unavailable := by
  unfold Attempt.answer
  cases attempt.copied with
  | true => exact .inl rfl
  | false => exact .inr rfl

/-- What an attempt does to the limiter that let it through. -/
inductive Verdict (clock : ℕ → TimePoint) (s : SharedState) (admitted : AuthenticationRateLimiter)
    (outcome : Outcome) : Prop where
  | unavailable (result : outcome.result = .error .unavailable) (recorded : outcome.recorded = none)
    (unsuccessful : outcome.succeeded = false)
    (state : outcome.state = { s with limiter := admitted, readings := s.readings + 1 })
  | succeeded (credential : CredentialRecord)
    (result : outcome.result = .ok ⟨⟨credential.identity⟩,credential.canonicalLogin⟩ ∨
      outcome.result = .error .unavailable)
    (recorded : outcome.recorded = none) (success : outcome.succeeded = true)
    (state : outcome.state = { s with limiter := admitted.recordSuccess, readings := s.readings + 1 })
  | failed (result : outcome.result = .error .invalidCredentials)
    (recorded : outcome.recorded = some (clock (s.readings + 1)))
    (unsuccessful : outcome.succeeded = false)
    (state : outcome.state =
      { s with limiter := admitted.recordFailure (clock (s.readings + 1)), readings := s.readings + 2 })

/-- An attempt is turned away with nothing done, or let through to one of the three verdicts. -/
theorem authenticate_cases (clock : ℕ → TimePoint) (s : SharedState) (attempt : Attempt) :
    ((s.limiter.allows (clock s.readings)).1 = false ∧
      authenticate clock s attempt = ⟨.error .throttled,[],none,false,
        { s with limiter := (s.limiter.allows (clock s.readings)).2, readings := s.readings + 1 }⟩) ∨
    ((s.limiter.allows (clock s.readings)).1 = true ∧
      Verdict clock s (s.limiter.allows (clock s.readings)).2 (authenticate clock s attempt)) := by
  unfold authenticate
  obtain ⟨allowed,limiter⟩ := s.limiter.allows (clock s.readings)
  cases allowed with
  | false => exact .inl ⟨rfl,rfl⟩
  | true =>
    refine .inr ⟨rfl,?_⟩
    simp only [Bool.not_true,Bool.false_eq_true,if_false]
    split
    · exact .unavailable rfl rfl rfl rfl
    · split
      · exact .unavailable rfl rfl rfl rfl
      · split
        · exact .succeeded _ (attempt.answer_cases _) rfl rfl rfl
        · exact .failed rfl rfl rfl rfl

/-- A result is a success that was recorded; without memory for it the answer is unavailable. -/
theorem authenticate_success (clock : ℕ → TimePoint) (s : SharedState) (attempt : Attempt) :
    (authenticate clock s attempt).result.isOk =
        ((authenticate clock s attempt).succeeded && attempt.copied) ∧
      ((authenticate clock s attempt).succeeded = true → attempt.copied = false →
        (authenticate clock s attempt).result = .error .unavailable) := by
  unfold authenticate
  obtain ⟨allowed,limiter⟩ := s.limiter.allows (clock s.readings)
  cases allowed with
  | false => exact ⟨rfl,nofun⟩
  | true =>
    simp only [Bool.not_true,Bool.false_eq_true,if_false]
    split
    · exact ⟨rfl,nofun⟩
    · split
      · exact ⟨rfl,nofun⟩
      · split
        · simp only [Attempt.answer]
          cases attempt.copied with
          | true => exact ⟨rfl,nofun⟩
          | false => exact ⟨rfl,fun _ _ => rfl⟩
        · exact ⟨rfl,nofun⟩

theorem stateAfter_append (attempts : List Attempt) (attempt : Attempt) :
    stateAfter clock s (attempts ++ [attempt]) =
      (authenticate clock (stateAfter clock s attempts) attempt).state := by
  rw [stateAfter,List.foldl_append]
  rfl

/-- What every attempt keeps holds of every state of a run. -/
theorem stateAfter_induction {p : SharedState → Prop} (hstart : p s)
    (hstep : ∀ s attempt, p s → p (authenticate clock s attempt).state) (attempts : List Attempt) :
    p (stateAfter clock s attempts) := by
  induction attempts using List.reverseRecOn with
  | nil => exact hstart
  | append_singleton attempts attempt ih =>
    rw [stateAfter_append]
    exact hstep _ _ ih

end SpareNode.Authentication
