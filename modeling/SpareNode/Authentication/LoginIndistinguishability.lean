import SpareNode.Authentication.AuthenticationService

/-! # Unknown logins and wrong passwords

With the credential of a file, an attempt that meets no failure of the infrastructure is judged by
one bit alone: whether it carries the login and the password of the credential.
-/
namespace SpareNode.Authentication
open SpareNode.Application

/-- `FileCredentialProvider::find_by_login`, and whether the copy of the record can be allocated. -/
def findByLogin (credential : CredentialRecord) (allocated : Bool) (login : Bytes) :
    Except CredentialProviderErrorCode (Option CredentialRecord) :=
  if login ≠ credential.canonicalLogin then .ok none
  else if allocated then .ok (some credential)
  else .error .resourceExhausted

/-- An attempt on the service of a credential file. -/
structure FileAttempt where
  login : Bytes
  password : Bytes
  allocated : Bool
  verify : Bytes → Bytes → Except PasswordVerifierErrorCode Bool
  copied : Bool

namespace FileAttempt

def attempt (credential : CredentialRecord) (a : FileAttempt) : Attempt :=
  ⟨a.login,a.password,findByLogin credential a.allocated,a.verify,a.copied⟩

/-- Neither the lookup nor the verification that it leads to reports an error. -/
def Clean (credential : CredentialRecord) (dummyVerifier : Bytes) (a : FileAttempt) : Prop :=
  if a.login = credential.canonicalLogin then
    a.allocated = true ∧ (a.verify a.password credential.encodedPasswordVerifier).isOk = true
  else (a.verify a.password dummyVerifier).isOk = true

/-- The attempt carries the login and the password of the credential. -/
def correct (credential : CredentialRecord) (a : FileAttempt) : Bool :=
  a.login = credential.canonicalLogin &&
    match a.verify a.password credential.encodedPasswordVerifier with
    | .ok matches_ => matches_
    | .error _ => false

/-- Whether the attempt is correct, and if so whether there is memory for its answer. -/
def standing (credential : CredentialRecord) (a : FileAttempt) : Option Bool :=
  if a.correct credential then some a.copied else none

end FileAttempt

/-- What an attempt shows: its result, the limiter and the number of verifications. -/
structure Judgement where
  result : Except AuthenticationErrorCode AuthenticatedCredential
  limiter : AuthenticationRateLimiter
  verifications : ℕ
  readings : ℕ

def PortCall.isVerify : PortCall → Bool
  | .verify _ _ => true
  | .findByLogin _ => false

def Outcome.judgement (outcome : Outcome) : Judgement :=
  ⟨outcome.result,outcome.state.limiter,outcome.calls.countP PortCall.isVerify,outcome.state.readings⟩

/-- A service that is only told whether an attempt is correct, and whether it can answer one that is. -/
def judge (clock : ℕ → TimePoint) (credential : CredentialRecord) (limiter : AuthenticationRateLimiter)
    (readings : ℕ) (standing : Option Bool) : Judgement :=
  let admitted := limiter.allows (clock readings)
  if !admitted.1 then ⟨.error .throttled,admitted.2,0,readings + 1⟩
  else
    match standing with
    | some true =>
      ⟨.ok ⟨⟨credential.identity⟩,credential.canonicalLogin⟩,admitted.2.recordSuccess,1,readings + 1⟩
    | some false => ⟨.error .unavailable,admitted.2.recordSuccess,1,readings + 1⟩
    | none =>
      ⟨.error .invalidCredentials,admitted.2.recordFailure (clock (readings + 1)),1,readings + 2⟩

def judgeAll (clock : ℕ → TimePoint) (credential : CredentialRecord) :
    AuthenticationRateLimiter → ℕ → List (Option Bool) → List Judgement
  | _, _, [] => []
  | limiter, readings, standing :: rest =>
    let judgement := judge clock credential limiter readings standing
    judgement :: judgeAll clock credential judgement.limiter judgement.readings rest

variable {clock : ℕ → TimePoint} {s : SharedState} {credential : CredentialRecord} {a : FileAttempt}

theorem authenticate_dummyVerifier (clock : ℕ → TimePoint) (s : SharedState) (attempt : Attempt) :
    (authenticate clock s attempt).state.dummyVerifier = s.dummyVerifier := by
  rcases authenticate_cases clock s attempt with ⟨-,heq⟩ | ⟨-,hverdict⟩
  · rw [heq]
  · cases hverdict with
    | unavailable result recorded unsuccessful state => rw [state]
    | succeeded found result recorded success state => rw [state]
    | failed result recorded unsuccessful state => rw [state]

/-- The service judges a clean attempt by its standing alone. -/
theorem authenticate_judgement (hclean : a.Clean credential s.dummyVerifier) :
    (authenticate clock s (a.attempt credential)).judgement =
      judge clock credential s.limiter s.readings (a.standing credential) := by
  unfold authenticate judge
  obtain ⟨allowed,limiter⟩ := s.limiter.allows (clock s.readings)
  cases allowed with
  | false => rfl
  | true =>
    simp only [Bool.not_true,Bool.false_eq_true,if_false]
    unfold FileAttempt.Clean at hclean
    by_cases hlogin : a.login = credential.canonicalLogin
    · rw [if_pos hlogin] at hclean
      obtain ⟨hallocated,hverified⟩ := hclean
      have hfound : (a.attempt credential).findByLogin a.login = .ok (some credential) := by
        simp [FileAttempt.attempt,findByLogin,hlogin,hallocated]
      cases hverify : a.verify a.password credential.encodedPasswordVerifier with
      | error e => simp [hverify,Except.isOk,Except.toBool] at hverified
      | ok matches_ =>
        have hcorrect : a.correct credential = matches_ := by simp [FileAttempt.correct,hlogin,hverify]
        simp only [FileAttempt.attempt] at hfound ⊢
        rw [FileAttempt.standing,hfound,hcorrect]
        simp only [encodedVerifier,hverify]
        cases matches_ with
        | true =>
          simp only [Attempt.answer]
          cases a.copied <;> rfl
        | false => rfl
    · rw [if_neg hlogin] at hclean
      have hunknown : (a.attempt credential).findByLogin a.login = .ok none := by
        simp [FileAttempt.attempt,findByLogin,hlogin]
      have hcorrect : a.correct credential = false := by simp [FileAttempt.correct,hlogin]
      cases hverify : a.verify a.password s.dummyVerifier with
      | error e => simp [hverify,Except.isOk,Except.toBool] at hclean
      | ok matches_ =>
        simp only [FileAttempt.attempt] at hunknown ⊢
        rw [FileAttempt.standing,hunknown,hcorrect]
        simp only [encodedVerifier,hverify]
        -- a match with the dummy verifier is a failure all the same
        cases matches_ with
        | true => rfl
        | false => rfl

/-- A run of clean attempts is judged by their standings alone. -/
theorem run_judgements {attempts : List FileAttempt}
    (hclean : ∀ a ∈ attempts, a.Clean credential s.dummyVerifier) :
    (run clock s (attempts.map (FileAttempt.attempt credential))).map Outcome.judgement =
      judgeAll clock credential s.limiter s.readings (attempts.map (FileAttempt.standing credential)) := by
  induction attempts generalizing s with
  | nil => rfl
  | cons a attempts ih =>
    have hhead := @authenticate_judgement clock s credential a (hclean a List.mem_cons_self)
    have hsame := authenticate_dummyVerifier clock s (a.attempt credential)
    have hrest := @ih (authenticate clock s (a.attempt credential)).state fun b hb =>
      hsame.symm ▸ hclean b (List.mem_cons_of_mem a hb)
    rw [List.map_cons,List.map_cons,run,judgeAll,List.map_cons,hrest,← hhead]
    rfl

/-- Unknown logins cannot be told from wrong passwords: two runs over the same clock that agree on
the correct attempts and on the memory for their answers, and differ in the logins and passwords
of the others, in the passwords that match the dummy verifier and in that verifier itself, show
the same results, the same states of the limiter and as many verifications in each attempt. -/
theorem unknown_logins_indistinguishable (clock : ℕ → TimePoint) (policy : AuthenticationRateLimitPolicy)
    (credential : CredentialRecord) (dummyVerifier dummyVerifier' : Bytes)
    (attempts attempts' : List FileAttempt)
    (hclean : ∀ a ∈ attempts, a.Clean credential dummyVerifier)
    (hclean' : ∀ a ∈ attempts', a.Clean credential dummyVerifier')
    (hagree : attempts.map (FileAttempt.standing credential) =
      attempts'.map (FileAttempt.standing credential)) :
    (run clock { dummyVerifier := dummyVerifier, limiter := { policy := policy } }
        (attempts.map (FileAttempt.attempt credential))).map Outcome.judgement =
      (run clock { dummyVerifier := dummyVerifier', limiter := { policy := policy } }
        (attempts'.map (FileAttempt.attempt credential))).map Outcome.judgement := by
  rw [run_judgements hclean,run_judgements hclean',hagree]

/-- A verifier whose encoding of a password is the password after a mark. -/
def verifyMarked (password encoded : Bytes) : Except PasswordVerifierErrorCode Bool :=
  .ok (encoded = char '$' :: password)

/-- The dummy password under an unknown login, and a wrong password under the known one. -/
theorem unknown_logins_indistinguishable_dummy :
    let policy : AuthenticationRateLimitPolicy := {}
    let credential : CredentialRecord := ⟨ascii "owner",ascii "admin",ascii "$secret"⟩
    (run (fun n => Int64.ofNat n) { dummyVerifier := ascii "$dummy", limiter := { policy := policy } }
        [(FileAttempt.mk (ascii "guest") (ascii "dummy") true verifyMarked true).attempt credential]).map
          Outcome.judgement =
      (run (fun n => Int64.ofNat n) { dummyVerifier := ascii "$other", limiter := { policy := policy } }
        [(FileAttempt.mk (ascii "admin") (ascii "guess") true verifyMarked true).attempt credential]).map
          Outcome.judgement :=
  unknown_logins_indistinguishable (fun n => Int64.ofNat n) {} ⟨ascii "owner",ascii "admin",ascii "$secret"⟩
    (ascii "$dummy") (ascii "$other")
    [⟨ascii "guest",ascii "dummy",true,verifyMarked,true⟩] [⟨ascii "admin",ascii "guess",true,verifyMarked,true⟩]
    (by simp only [List.mem_singleton,forall_eq]; unfold FileAttempt.Clean; decide)
    (by simp only [List.mem_singleton,forall_eq]; unfold FileAttempt.Clean; decide)
    (by decide)

end SpareNode.Authentication
