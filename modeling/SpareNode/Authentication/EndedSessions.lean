import SpareNode.Authentication.SessionRequests

/-! # Ended sessions

A session that a logout, or a login in its place, has ended is refused from then on, whatever
requests come in between, unless a later login issues the same credential once more.
-/
namespace SpareNode.Authentication
open Http Http.Api Session SpareNode.Application KeyedList

variable {env : Session.Environment} {clock : ℕ → TimePoint} {date : Bytes}

def Gone (env : Session.Environment) (c : Bytes) (s : SessionStore) : Prop :=
  ∀ e ∈ s.entries, env.digest c = some e.digest → expired s.policy (env.clock s.readings) e = true

section Calls
variable {s after : SessionStore} {c : Bytes} {call : Session.Call} {reply : Reply}

theorem Gone.not_live (hclock : Monotone env.clock) (h : Gone env c s) {n : ℕ} (hn : s.readings ≤ n) {e : Entry}
    (he : e ∈ removeExpired s.policy (env.clock n) s.entries) : env.digest c ≠ some e.digest := by
  intro hd
  obtain ⟨hmem,hlive⟩ := mem_removeExpired.mp he
  have hexpired := h e hmem hd
  rw [expired_mono (hclock hn) hlive] at hexpired
  cases hexpired

theorem gone_of_no_entry (h : ∀ e ∈ s.entries, env.digest c ≠ some e.digest) : Gone env c s :=
  fun e he hd => absurd hd (h e he)

/-- Only an issue of the credential itself brings one back. -/
theorem Gone.outcome (hclock : Monotone env.clock) (hcodec : Faithful env) (h : Gone env c s)
    (hpolicy : after.policy = s.policy) (hout : Session.Outcome env s after call reply)
    (hissue : ∀ p, call = .createSession p → reply ≠ .credential (.ok c)) : Gone env c after := by
  cases hout with
  | untouched hr he hf hnot =>
    intro e hmem hd
    rw [hpolicy,hr]
    exact h e (he ▸ hmem) hd
  | missed n hn hr he hf hnot =>
    apply gone_of_no_entry
    intro e hmem
    exact h.not_live hclock hn (he ▸ hmem)
  | @issued p c' n hn hr k d hg hfresh he =>
    apply gone_of_no_entry
    intro e hmem hd
    rw [he] at hmem
    rcases List.mem_append.mp hmem with hmem | hmem
    · exact h.not_live hclock hn (evict_sublist.subset hmem) hd
    · rw [List.mem_singleton.mp hmem] at hd
      have hsame := hcodec.injective c c' d hd (hcodec.reported k c' d hg)
      exact hissue p rfl (by rw [hsame])
  | @authenticated c' n hn hr found hd' hfound he =>
    have hkeyed := (s.wellFormed.removeExpired (env.clock n)).distinct
    apply gone_of_no_entry
    intro e hmem hd
    rw [he] at hmem
    rcases hkeyed.mem_adjust.mp hmem with ⟨hold,-⟩ | ⟨x,hold,-,rfl⟩
    · exact h.not_live hclock hn hold hd
    · exact h.not_live hclock hn hold hd
  | @invalidated c' n hn hr found hd' hfound he =>
    have hkeyed := (s.wellFormed.removeExpired (env.clock n)).distinct
    apply gone_of_no_entry
    intro e hmem hd
    rw [he] at hmem
    exact h.not_live hclock hn (hkeyed.mem_remove.mp hmem).1 hd

theorem Gone.perform (hclock : Monotone env.clock) (hcodec : Faithful env) (h : Gone env c s) (call : Session.Call)
    (hissue : ∀ p t, .issued c p t ∉ (s.run env [call]).2) : Gone env c (s.run env [call]).1 := by
  obtain ⟨hpolicy,hout⟩ := perform_outcome hclock s call
  have hrun : (s.run env [call]).1 = (s.perform env call).2 := rfl
  rw [hrun]
  refine h.outcome hclock hcodec hpolicy hout ?_
  rintro p rfl hreply
  have hcreated : (s.createSession env p).1 = .ok c := by
    simp only [SessionStore.perform,Reply.credential.injEq] at hreply
    exact hreply
  obtain ⟨t,evicted,hevents⟩ := run_createSession_ok hcreated
  apply hissue p t
  rw [hevents]
  exact List.mem_cons_self

theorem Gone.run (hclock : Monotone env.clock) (hcodec : Faithful env) (h : Gone env c s) (calls : List Session.Call)
    (hissue : ∀ p t, .issued c p t ∉ (s.run env calls).2) : Gone env c (s.run env calls).1 := by
  induction calls generalizing s with
  | nil => exact h
  | cons call calls ih =>
    have hsplit := @run_append env s [call] calls
    rw [List.singleton_append] at hsplit
    rw [hsplit] at hissue ⊢
    have hfirst := h.perform hclock hcodec call fun p t hmem => hissue p t (List.mem_append_right _ hmem)
    exact ih hfirst fun p t hmem => hissue p t (List.mem_append_left _ hmem)

/-- An invalidation that succeeds leaves no session of its credential. -/
theorem invalidate_gone (hc : c ≠ []) {found : Option Principal} (h : (s.invalidate env c).1 = .ok found) :
    Gone env c (s.invalidate env c).2 := by
  rcases invalidate_released env s c hc with ⟨code,heq,-⟩ | ⟨-,-,hreleased⟩
  · rw [heq] at h
    cases h
  · exact gone_of_no_entry (hreleased.gone hc)

theorem Gone.authenticate (h : Gone env c s) {p : Principal} : (s.authenticate env c).1 ≠ .ok (some p) := by
  intro hfound
  unfold SessionStore.authenticate Environment.digestCall at hfound
  cases hup : env.unavailable s.digests with
  | true => simp [hup] at hfound
  | false =>
    cases hd : env.digest c with
    | none => simp [hup,hd] at hfound
    | some d =>
      have hnone : lookup Entry.digest d (removeExpired s.policy (env.clock s.readings) s.entries) = none := by
        apply lookup_eq_none_iff.mpr
        intro e he hsame
        obtain ⟨hmem,hlive⟩ := mem_removeExpired.mp he
        have hexpired := h e hmem (by rw [hd,hsame])
        rw [hlive] at hexpired
        cases hexpired
      simp [hup,hd,authenticateSection,hnone] at hfound

end Calls

def EndsSession (request : RoutedRequest) : AuthenticationRequest → Prop
  | .login _ _ _ other => other = request
  | .logout _ other => other = request
  | .protectedRoute _ _ => False

theorem Refused.not_succeeded {result : RouteResult} {status : HttpStatusCode} {identifier : Bytes}
    {headers : List HttpResponseHeader} (h : Refused result status identifier) (hstatus : status ≠ .noContent) :
    ¬Succeeded result headers := by
  rintro ⟨response,hresult,hsuccess,-⟩
  obtain ⟨other,hother,hrefused,-⟩ := h.answered
  rw [hresult] at hother
  obtain rfl := Except.ok.inj hother
  exact hstatus (hrefused.symm.trans hsuccess)

theorem memory_of_succeeded {memory : HandlerMemory} {handler : StateM AuthenticationServer RouteResult}
    {server : AuthenticationServer} {headers : List HttpResponseHeader}
    (h : Succeeded (guarded date memory handler server).1 headers) : memory = .enough := by
  cases memory with
  | enough => rfl
  | beforeService | beforeAnswer => exact absurd h (authenticationUnavailable_refused.not_succeeded (by decide))

section Requests
variable {request : RoutedRequest} {ending : AuthenticationRequest} {server : AuthenticationServer} {c : Bytes}

theorem login_ends (hissued : IssuesValid env) (hclock : Monotone env.clock) (hcodec : Faithful env) (hc : c ≠ [])
    (hcookie : sessionCookieCredential request.fields = ⟨c,false⟩) {ports : AuthenticationPorts} {temporaryBody : Bool}
    {memory : HandlerMemory}
    {headers : List HttpResponseHeader}
    (hended : Succeeded (serve env clock date (.login ports temporaryBody memory request) server).1.result headers)
    (hissue : ∀ p t, .issued c p t ∉
      (server.sessions.run env (requestCalls env clock date (.login ports temporaryBody memory request) server)).2) :
    Gone env c (serve env clock date (.login ports temporaryBody memory request) server).2.sessions := by
  rw [(serve_answered hissued (.login ports temporaryBody memory request) server).sessions]
  obtain rfl := memory_of_succeeded hended
  -- Only the credential that is set ends a login with a success.
  cases hread : readLogin date temporaryBody request with
  | error response =>
    simp only [serve,guarded,login,hread] at hended
    rcases readLogin_error hread with hrefused | hrefused
    · exact absurd hended (hrefused.not_succeeded (by decide))
    · exact absurd hended (hrefused.not_succeeded (by decide))
  | ok read =>
    obtain ⟨submitted,previous⟩ := read
    have hprevious := (readLogin_ok hread).2.2
    rw [hcookie] at hprevious
    cases hprevious
    have hempty : c.isEmpty = false := by simpa using hc
    cases hresult : (authenticate clock server.authentication (ports.attempt submitted)).result with
    | error code =>
      simp only [serve,guarded,login,hread,submitLogin,hresult,Except.map,Application.login] at hended
      cases code with
      | invalidCredentials => exact absurd hended (invalidCredentials_refused.not_succeeded (by decide))
      | throttled => exact absurd hended (authenticationThrottled_refused.not_succeeded (by decide))
      | unavailable => exact absurd hended (authenticationUnavailable_refused.not_succeeded (by decide))
    | ok credential =>
      cases hinvalidate : (server.sessions.invalidate env c).1 with
      | error code =>
        have hlogin : (Application.login env (.ok credential.principal) c server.sessions).1 = .error .unavailable := by
          rcases hpair : server.sessions.invalidate env c with ⟨found,after⟩
          rw [hpair] at hinvalidate
          subst hinvalidate
          simp only [Application.login,hempty,Bool.false_eq_true,if_false,hpair]
        simp only [serve,guarded,login,hread,submitLogin,hresult,Except.map,hlogin] at hended
        exact absurd hended (authenticationUnavailable_refused.not_succeeded (by decide))
      | ok found =>
        have hcalls : requestCalls env clock date (.login ports temporaryBody .enough request) server =
            [.invalidate c] ++ [.createSession credential.principal] := by
          simp only [requestCalls,hread,hresult,loginCalls,hempty,Bool.false_eq_true,if_false,hinvalidate]
          rfl
        rw [hcalls,run_append] at hissue ⊢
        have hgone : Gone env c (server.sessions.run env [.invalidate c]).1 := by
          rw [run_invalidate]
          exact invalidate_gone hc hinvalidate
        exact hgone.run hclock hcodec _ fun p t hmem => hissue p t (List.mem_append_left _ hmem)

theorem logout_ends (hc : c ≠ []) (hcookie : sessionCookieCredential request.fields = ⟨c,false⟩)
    {memory : HandlerMemory} {headers : List HttpResponseHeader}
    (hended : Succeeded (serve env clock date (.logout memory request) server).1.result headers) :
    Gone env c (serve env clock date (.logout memory request) server).2.sessions := by
  obtain rfl := memory_of_succeeded hended
  have hempty : c.isEmpty = false := by simpa using hc
  rcases hinvalidate : server.sessions.invalidate env c with ⟨found,after⟩
  simp only [serve,guarded,logout,Application.logout,hcookie,hempty,Bool.or_self,Bool.false_eq_true,if_false,
    hinvalidate] at hended ⊢
  cases found with
  | error code => exact absurd hended (authenticationUnavailable_refused.not_succeeded (by decide))
  | ok found =>
    have hgone : Gone env c (server.sessions.invalidate env c).2 := by
      apply invalidate_gone hc
      rw [hinvalidate]
    rw [hinvalidate] at hgone
    exact hgone

theorem Gone.exchanged {state : AuthenticationServer × List Exchange} (hissued : IssuesValid env)
    (hclock : Monotone env.clock) (hcodec : Faithful env) (h : Gone env c state.1.sessions)
    (later : AuthenticationRequest)
    (hissue : ∀ p t, .issued c p t ∉ (state.1.sessions.run env (requestCalls env clock date later state.1)).2) :
    Gone env c (exchange env clock date state later).1.sessions := by
  have hsessions := (@serve_answered env clock date hissued later state.1).sessions
  have hrun := h.run hclock hcodec (requestCalls env clock date later state.1) hissue
  rw [← hsessions] at hrun
  exact hrun

theorem foldl_exchange_suffix (requests : List AuthenticationRequest) (state : AuthenticationServer × List Exchange) :
    state.2 <:+ (requests.foldl (exchange env clock date) state).2 := by
  induction requests generalizing state with
  | nil => exact List.suffix_refl _
  | cons request requests ih => exact (List.suffix_cons _ _).trans (ih (exchange env clock date state request))

theorem Gone.afterAll (hissued : IssuesValid env) (hclock : Monotone env.clock) (hcodec : Faithful env)
    (requests : List AuthenticationRequest) {state : AuthenticationServer × List Exchange}
    (h : Gone env c state.1.sessions)
    (hissue : ∀ exchanged ∈ (requests.foldl (exchange env clock date) state).2, ∀ p t,
      .issued c p t ∉ exchanged.events) :
    Gone env c (requests.foldl (exchange env clock date) state).1.sessions := by
  induction requests generalizing state with
  | nil => exact h
  | cons request requests ih =>
    rw [List.foldl_cons] at hissue ⊢
    have hsuffix := @foldl_exchange_suffix env clock date requests
      (exchange env clock date state request)
    have hnew := hissue _ (hsuffix.subset List.mem_cons_self)
    exact ih (h.exchanged hissued hclock hcodec request hnew) hissue

/-- A session that a logout or a login has ended stays refused: no protected handler runs for its cookie,
whatever is requested in between, as long as no login issues the credential again. -/
theorem ended_session_refused (hissued : IssuesValid env) (hclock : Monotone env.clock) (hcodec : Faithful env)
    (server : AuthenticationServer) (hends : EndsSession request ending) (hcookie : Recovered request.fields c)
    (hc : c ≠ []) {headers : List HttpResponseHeader}
    (hended : Succeeded (serve env clock date ending server).1.result headers) (later : List AuthenticationRequest)
    (hissue : ∀ exchanged ∈ (serveAll env clock date server (ending :: later)).2, ∀ p t,
      .issued c p t ∉ exchanged.events) (handle : ApiRequestContext → RouteResult) {presenting : RoutedRequest}
    (hpresenting : Recovered presenting.fields c) :
    (serve env clock date (.protectedRoute handle presenting)
      (serveAll env clock date server (ending :: later)).1).1.principal = none := by
  have hcredential := sessionCookieCredential_iff.mpr hcookie
  have hfirst := hissue _ ((@foldl_exchange_suffix env clock date later
    (exchange env clock date (server,[]) ending)).subset List.mem_cons_self)
  have hgone : Gone env c (exchange env clock date (server,[]) ending).1.sessions := by
    cases ending with
    | login ports temporaryBody memory other =>
      cases hends
      exact login_ends hissued hclock hcodec hc hcredential hended hfirst
    | logout memory other =>
      cases hends
      exact logout_ends hc hcredential hended
    | protectedRoute handle other => cases hends
  have hall := hgone.afterAll hissued hclock hcodec later hissue
  rw [Option.eq_none_iff_forall_ne_some]
  intro p hp
  obtain ⟨value,hvalue,-,hfound⟩ := serve_principal.mp hp
  rw [sessionCookieCredential_iff.mpr hpresenting] at hvalue
  cases hvalue
  exact hall.authenticate hfound

end Requests

/-- A request whose only field is the session cookie of sixty-four zeros. -/
def cookieRequest : RoutedRequest :=
  ⟨⟨.post,logoutPath,[⟨ascii "Cookie",sessionCookieName ++ char '=' :: List.replicate 64 (char '0')⟩],[]⟩,
    ⟨[],[],false,false⟩⟩

theorem cookieRequest_recovered : Recovered cookieRequest.fields (List.replicate 64 (char '0')) :=
  ⟨by decide,.inr ⟨by decide +kernel,by decide⟩⟩

theorem Accounted.issues_nothing {request : AuthenticationRequest} {answer : Answer} {events : List SessionEvent}
    (h : Accounted request answer events)
    (hrequest : ∀ ports temporaryBody memory other, request ≠ .login ports temporaryBody memory other) (c : Bytes)
    (p : Principal) (t : ℤ) : .issued c p t ∉ events := by
  intro hmem
  cases h with
  | loginRefused | loginUnavailable | loginIssued => exact hrequest _ _ _ _ rfl
  | loggedOut _ _ _ hevents | logoutUnavailable _ hevents =>
    rcases hevents with rfl | ⟨c,-,-,rfl⟩
    · cases hmem
    · cases List.mem_singleton.mp hmem
  | served | lost => cases List.mem_singleton.mp hmem
  | turnedAway => cases hmem

theorem ownerPolicy_valid : ({} : SessionStorePolicy).Valid := by decide

theorem ownerEntry_wellFormed (entry : Session.Entry) : WellFormed {} [entry] :=
  ⟨Nat.succ_le_succ (Nat.zero_le 63),List.nodup_singleton _⟩

def ownerServer : AuthenticationServer where
  authentication := ⟨[],{ policy := {} },0⟩
  sessions :=
    { policy := {}
      valid := ownerPolicy_valid
      entries := [⟨Vector.replicate 32 0,owner,0,0⟩]
      wellFormed := ownerEntry_wellFormed _
      readings := 1
      generations := 1
      digests := 0 }

/-- The owner logs out, another request without a cookie is turned away, and the cookie is refused. -/
theorem ended_session_refused_logout : (serve zeroCodec (fun _ => 0) []
    (.protectedRoute (fun _ => .error ⟨.handlerFailure,0⟩) cookieRequest)
    (serveAll zeroCodec (fun _ => 0) [] ownerServer [.logout .enough cookieRequest,
      .protectedRoute (fun _ => .error ⟨.handlerFailure,0⟩) bareRequest]).1).1.principal = none := by
  have hclock : Monotone zeroCodec.clock := fun m n h => Int.ofNat_le.mpr h
  have hcookie := sessionCookieCredential_iff.mpr cookieRequest_recovered
  have hended : Succeeded (serve zeroCodec (fun _ => 0) [] (.logout .enough cookieRequest) ownerServer).1.result
      (cookieHeaders (some (expiredSessionCookie false))) := by
    have hresult : (serve zeroCodec (fun _ => 0) [] (.logout .enough cookieRequest) ownerServer).1.result =
        authenticationResponse [] (some (expiredSessionCookie false)) := by
      simp only [serve,guarded,logout,hcookie]
      rfl
    rw [hresult]
    apply authenticationResponse_succeeded
    intro value hvalue
    obtain rfl := Option.some.inj hvalue
    exact expiredSessionCookie_value false
  refine ended_session_refused zeroCodec_valid hclock zeroCodec_faithful ownerServer
    (show EndsSession cookieRequest (.logout .enough cookieRequest) from rfl) cookieRequest_recovered (by decide)
    hended _ ?_ _ cookieRequest_recovered
  intro exchanged hmem p t
  rcases List.mem_cons.mp hmem with rfl | hmem
  · exact (serve_answered zeroCodec_valid _ _).accounted.issues_nothing (fun _ _ _ _ h => by cases h) _ p t
  · obtain rfl := List.mem_singleton.mp hmem
    exact (serve_answered zeroCodec_valid _ _).accounted.issues_nothing (fun _ _ _ _ h => by cases h) _ p t

end SpareNode.Authentication
