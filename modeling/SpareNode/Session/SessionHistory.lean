import SpareNode.Session.SessionStore

/-! # Session histories

What a session store is for, said without a store: a log of issues, authentications,
invalidations and evictions, newest first, decides which credentials are live. An authentication
whose answer is lost for want of memory renews its session as any other does. The log also
folds to an abstract session map from credentials to records; both readings agree.
-/
namespace SpareNode.Session

inductive SessionEvent where
  | issued (credential : Bytes) (principal : Principal) (time : ℤ)
  | authenticated (credential : Bytes) (time : ℤ)
  | lost (credential : Bytes) (time : ℤ)
  | invalidated (credential : Bytes)
  | evicted (digest : SessionCredentialDigest)
deriving DecidableEq

variable (digest : Bytes → Option SessionCredentialDigest) (c : Bytes)

/-- Since its most recent issue nothing has issued, invalidated or evicted the session. -/
structure Undisturbed (since : List SessionEvent) : Prop where
  issued : ∀ p t, .issued c p t ∉ since
  invalidated : .invalidated c ∉ since
  evicted : ∀ d, digest c = some d → .evicted d ∉ since

def renewedAt : SessionEvent → Option ℤ
  | .authenticated c' t | .lost c' t => if c' = c then some t else none
  | _ => none

/-- The later of the creation and the last authentication that found the session. -/
def activity (created : ℤ) (since : List SessionEvent) : ℤ :=
  match since.findSome? (renewedAt c) with
  | none => created
  | some t => max created t

/-- Credential `c` denotes a session of `p` at time `t`. -/
def Live (policy : SessionStorePolicy) (log : List SessionEvent) (p : Principal) (t : ℤ) : Prop :=
  ∃ since before created, log = since ++ .issued c p created :: before ∧
    Undisturbed digest c since ∧ t - created < policy.absoluteLifetime ∧
    t - activity c created since < policy.idleTimeout

/-- What the abstract session map holds for a credential. -/
structure SessionRecord where
  principal : Principal
  created : ℤ
  lastActivity : ℤ
deriving DecidableEq

def SessionEvent.update (old : Option SessionRecord) : SessionEvent → Option SessionRecord
  | .issued c' p t => if c' = c then some ⟨p,t,t⟩ else old
  | .authenticated c' t | .lost c' t =>
    if c' = c then old.map (fun r => { r with lastActivity := max r.created t }) else old
  | .invalidated c' => if c' = c then none else old
  | .evicted d => if digest c = some d then none else old

/-- The abstract session map at `c` after a log. -/
def record : List SessionEvent → Option SessionRecord
  | [] => none
  | event :: log => event.update digest c (record log)

variable {digest c}

theorem Undisturbed.nil : Undisturbed digest c [] := ⟨by simp,by simp,by simp⟩

/-- A record counts at time `t` while neither lifetime has elapsed. -/
def SessionRecord.Current (policy : SessionStorePolicy) (t : ℤ) (r : SessionRecord) : Prop :=
  t - r.created < policy.absoluteLifetime ∧ t - r.lastActivity < policy.idleTimeout

theorem record_evicted (digests : List SessionCredentialDigest) (log : List SessionEvent) :
    record digest c (digests.map .evicted ++ log) =
      if ∃ d ∈ digests, digest c = some d then none else record digest c log := by
  induction digests with
  | nil => simp
  | cons d digests ih =>
    simp only [List.map_cons,List.cons_append,record,SessionEvent.update,ih,List.mem_cons,
      exists_eq_or_imp]
    by_cases hd : digest c = some d
    · simp [hd]
    · simp [hd]

end SpareNode.Session
