import SpareNode.Authentication.AuthenticationHandlers
import SpareNode.Session.SessionStoreRuns

/-! # Sessions over HTTP

A server answers logins, logouts and requests of protected routes, in any order and from any
clients. What its answers say of sessions is the log of the session store, so that a protected
request is served exactly while the cookie of a login lives.
-/
namespace SpareNode.Authentication
open Http Http.Api Session SpareNode.Application

/-- A request with what the ports, or the handler behind the session policy, answer to it. -/
inductive AuthenticationRequest where
  | login (ports : AuthenticationPorts) (temporaryBody : Bool) (memory : HandlerMemory) (request : RoutedRequest)
  | logout (memory : HandlerMemory) (request : RoutedRequest)
  | protectedRoute (handle : ApiRequestContext → RouteResult) (request : RoutedRequest)

/-- An answer, and for whom a protected handler has run. -/
structure Answer where
  result : RouteResult
  principal : Option Principal := none

section Serving
variable (env : Session.Environment) (clock : ℕ → TimePoint) (date : Bytes)

/-- A handler that tells for whom it has run. -/
def noteHandler (handle : ApiRequestContext → RouteResult) : ApiRequestHandler (ServerState (Option Principal)) :=
  fun context state => (handle context,{ state with rest := context.authenticatedPrincipal })

def serve (request : AuthenticationRequest) (server : AuthenticationServer) : Answer × AuthenticationServer :=
  match request with
  | .login ports temporaryBody memory request =>
    let reply := guarded date memory (login env clock date ports temporaryBody request) server
    (⟨reply.1,none⟩,reply.2)
  | .logout memory request =>
    let reply := guarded date memory (logout env date request) server
    (⟨reply.1,none⟩,reply.2)
  | .protectedRoute handle request =>
    let reply := makeSessionAuthenticationPolicy env date (noteHandler handle)
      { request := request, parameters := ⟨[]⟩ } ⟨some server.sessions,none⟩
    (⟨reply.1,reply.2.rest⟩,{ server with sessions := reply.2.sessions.getD server.sessions })

/-- A call on the presented session, when a request presents one. -/
def presentedCalls (call : Bytes → Session.Call) (fields : List HttpHeaderView) : List Session.Call :=
  let credential := sessionCookieCredential fields
  if credential.malformed || credential.value.isEmpty then [] else [call credential.value]

/-- The calls of a login whose credentials are verified. -/
def loginCalls (sessions : SessionStore) (previousSession : Bytes) (principal : Principal) : List Session.Call :=
  if previousSession.isEmpty then [.createSession principal]
  else
    match (sessions.invalidate env previousSession).1 with
    | .error _ => [.invalidate previousSession]
    | .ok _ => [.invalidate previousSession,.createSession principal]

def requestCalls (request : AuthenticationRequest) (server : AuthenticationServer) : List Session.Call :=
  match request with
  | .login _ _ .beforeService _ => []
  | .login ports temporaryBody _ request =>
    match readLogin date temporaryBody request with
    | .error _ => []
    | .ok (submitted,previousSession) =>
      match (authenticate clock server.authentication (ports.attempt submitted)).result with
      | .error _ => []
      | .ok credential => loginCalls env server.sessions previousSession credential.principal
  | .logout .beforeService _ => []
  | .logout _ request => presentedCalls .invalidate request.fields
  | .protectedRoute _ request => presentedCalls .authenticate request.fields

/-- An answered request with what it has done to the sessions, newest first. -/
structure Exchange where
  request : AuthenticationRequest
  answer : Answer
  events : List SessionEvent

/-- One request after the other; the newest exchange comes first. -/
def exchange (state : AuthenticationServer × List Exchange) (request : AuthenticationRequest) :
    AuthenticationServer × List Exchange :=
  let reply := serve env clock date request state.1
  (reply.2,⟨request,reply.1,(state.1.sessions.run env (requestCalls env clock date request state.1)).2⟩ :: state.2)

def serveAll (server : AuthenticationServer) (requests : List AuthenticationRequest) :
    AuthenticationServer × List Exchange :=
  requests.foldl (exchange env clock date) (server,[])

end Serving

def sessionLog (exchanges : List Exchange) : List SessionEvent := exchanges.flatMap Exchange.events

variable {env : Session.Environment} {clock : ℕ → TimePoint} {date : Bytes}

section Calls
variable {s : SessionStore} {c : Bytes} {p : Principal}

/-- A run behind a log puts its events in front of it. -/
theorem foldl_step (calls : List Session.Call) (s : SessionStore) (log : List SessionEvent) :
    calls.foldl (SessionStore.step env) (s,log) = ((s.run env calls).1,(s.run env calls).2 ++ log) := by
  have hall (calls : List Session.Call) (s : SessionStore) (log more : List SessionEvent) :
      calls.foldl (SessionStore.step env) (s,log ++ more) =
        ((calls.foldl (SessionStore.step env) (s,log)).1,(calls.foldl (SessionStore.step env) (s,log)).2 ++ more) := by
    induction calls generalizing s log with
    | nil => rfl
    | cons call calls ih =>
      rw [List.foldl_cons,List.foldl_cons,← ih]
      simp only [SessionStore.step,List.append_assoc]
  exact hall calls s [] log

theorem run_invalidate (c : Bytes) (s : SessionStore) : s.run env [.invalidate c] = ((s.invalidate env c).2,
    match (s.invalidate env c).1 with
    | .ok (some _) => [.invalidated c]
    | _ => []) := by
  simp only [SessionStore.run,List.foldl_cons,List.foldl_nil,SessionStore.step,SessionStore.perform,callEvents]
  cases (s.invalidate env c).1 with
  | error e => rfl
  | ok found => cases found <;> rfl

theorem run_authenticate (c : Bytes) (s : SessionStore) : s.run env [.authenticate c] = ((s.authenticate env c).2,
    match (s.authenticate env c).1 with
    | .ok (some _) => [.authenticated c (env.clock ((s.authenticate env c).2.readings - 1))]
    | .error .resourceAllocationFailed => [.lost c (env.clock ((s.authenticate env c).2.readings - 1))]
    | _ => []) := by
  simp only [SessionStore.run,List.foldl_cons,List.foldl_nil,SessionStore.step,SessionStore.perform,callEvents]
  cases (s.authenticate env c).1 with
  | error e => cases e <;> rfl
  | ok found => cases found <;> rfl

theorem run_createSession (p : Principal) (s : SessionStore) :
    (s.run env [.createSession p]).1 = (s.createSession env p).2 := by
  rw [SessionStore.run,List.foldl_cons,List.foldl_nil,SessionStore.step,SessionStore.perform]

theorem run_createSession_error {code : SessionStoreErrorCode} (h : (s.createSession env p).1 = .error code) :
    s.run env [.createSession p] = ((s.createSession env p).2,[]) := by
  simp [SessionStore.run,SessionStore.step,SessionStore.perform,callEvents,h]

theorem run_createSession_ok (h : (s.createSession env p).1 = .ok c) :
    ∃ t, ∃ evicted : List SessionCredentialDigest, s.run env [.createSession p] =
      ((s.createSession env p).2,.issued c p t :: evicted.map SessionEvent.evicted) := by
  refine ⟨env.clock ((s.createSession env p).2.readings - 1),
    (((liveDuring env s (s.createSession env p).2).filter
      (fun e => !contains (s.createSession env p).2.entries e.digest)).map Entry.digest),?_⟩
  simp only [SessionStore.run,List.foldl_cons,List.foldl_nil,SessionStore.step,SessionStore.perform,callEvents,h,
    List.append_nil]

theorem run_append (s : SessionStore) (calls more : List Session.Call) : s.run env (calls ++ more) =
    (((s.run env calls).1.run env more).1,((s.run env calls).1.run env more).2 ++ (s.run env calls).2) := by
  rw [SessionStore.run,List.foldl_append,foldl_step calls,List.append_nil,foldl_step more]

end Calls

def Releases (fields : List HttpHeaderView) (events : List SessionEvent) : Prop :=
  events = [] ∨ ∃ c, Recovered fields c ∧ c ≠ [] ∧ events = [.invalidated c]

/-- The one answer after which the sessions may have changed though nothing was granted. -/
def Unavailable (result : RouteResult) : Prop :=
  Refused result .serviceUnavailable (ascii "authentication_unavailable")

/-- The sessions of an answered request, as its answer tells. When memory runs out, the new session of a
login is not handed out, and the session of a protected request is renewed for nothing. -/
inductive Accounted : AuthenticationRequest → Answer → List SessionEvent → Prop
  | loginRefused {ports : AuthenticationPorts} {temporaryBody : Bool} {memory : HandlerMemory}
      {request : RoutedRequest} {result : RouteResult} {status : HttpStatusCode} {identifier : Bytes}
      (hrefused : Refused result status identifier) :
      Accounted (.login ports temporaryBody memory request) ⟨result,none⟩ []
  | loginUnavailable {ports : AuthenticationPorts} {temporaryBody : Bool} {memory : HandlerMemory}
      {request : RoutedRequest} {result : RouteResult} {events : List SessionEvent}
      (hunavailable : Unavailable result) (hevents : Releases request.fields events) :
      Accounted (.login ports temporaryBody memory request) ⟨result,none⟩ events
  | loginIssued {ports : AuthenticationPorts} {temporaryBody : Bool} {memory : HandlerMemory}
      {request : RoutedRequest} {result : RouteResult} (submitted : LoginRequest) (credential : CredentialRecord)
      (value : Bytes) (t : ℤ) (evicted : List SessionCredentialDigest) (released : List SessionEvent)
      (hmedia : hasJsonContentType request.fields = true)
      (hsubmitted : LoginJsonParser.parse request.body = some submitted)
      (hfound : ports.findByLogin submitted.login = .ok (some credential))
      (hverified : ports.verify submitted.password credential.encodedPasswordVerifier = .ok true)
      (hvalue : validEncodedCredential value = true)
      (hresult : if memory = .enough then
          Succeeded result [⟨ascii "Set-Cookie",sessionCookie value request.transport.secure⟩]
        else Unavailable result)
      (hreleased : Releases request.fields released) :
      Accounted (.login ports temporaryBody memory request) ⟨result,none⟩
        (.issued value ⟨credential.identity⟩ t :: (evicted.map SessionEvent.evicted ++ released))
  | loggedOut {memory : HandlerMemory} {request : RoutedRequest} {result : RouteResult} {events : List SessionEvent}
      (cookie : Option Bytes) (hcookie : ∀ value ∈ cookie, value = expiredSessionCookie request.transport.secure)
      (hresult : Succeeded result (cookieHeaders cookie)) (hevents : Releases request.fields events) :
      Accounted (.logout memory request) ⟨result,none⟩ events
  | logoutUnavailable {memory : HandlerMemory} {request : RoutedRequest} {result : RouteResult}
      {events : List SessionEvent} (hunavailable : Unavailable result) (hevents : Releases request.fields events) :
      Accounted (.logout memory request) ⟨result,none⟩ events
  | served {handle : ApiRequestContext → RouteResult} {request : RoutedRequest} (p : Principal) (c : Bytes) (t : ℤ)
      (hcookie : Recovered request.fields c) (hc : c ≠ []) :
      Accounted (.protectedRoute handle request)
        ⟨handle { request := request, parameters := ⟨[]⟩, authenticatedPrincipal := some p },some p⟩
        [.authenticated c t]
  | turnedAway {handle : ApiRequestContext → RouteResult} {request : RoutedRequest} {result : RouteResult}
      {status : HttpStatusCode} {identifier : Bytes} (hrefused : Refused result status identifier) :
      Accounted (.protectedRoute handle request) ⟨result,none⟩ []
  | lost {handle : ApiRequestContext → RouteResult} {request : RoutedRequest} {result : RouteResult} (c : Bytes)
      (t : ℤ) (hcookie : Recovered request.fields c) (hc : c ≠ []) (hunavailable : Unavailable result) :
      Accounted (.protectedRoute handle request) ⟨result,none⟩ [.lost c t]

def IssuesValid (env : Session.Environment) : Prop :=
  ∀ n c d, env.generate n = .generated c d → validEncodedCredential c = true

section Login
variable {s : SessionStore} {previousSession : Bytes} {p : Principal}

/-- The events of the call that releases the presented session. -/
def ReleaseEvents (previousSession : Bytes) (events : List SessionEvent) : Prop :=
  events = [] ∨ previousSession ≠ [] ∧ events = [.invalidated previousSession]

theorem invalidate_events (h : previousSession ≠ []) (s : SessionStore) :
    ReleaseEvents previousSession (s.run env [.invalidate previousSession]).2 := by
  rw [run_invalidate]
  cases (s.invalidate env previousSession).1 with
  | error e => exact .inl rfl
  | ok found =>
    cases found with
    | none => exact .inl rfl
    | some q => exact .inr ⟨h,rfl⟩

/-- How the store answers a login whose credentials are verified. -/
inductive Established (env : Session.Environment) (p : Principal) (previousSession : Bytes) :
    Except SessionLoginErrorCode Bytes → List SessionEvent → Prop
  | failed {events : List SessionEvent} (hevents : ReleaseEvents previousSession events) :
      Established env p previousSession (.error .unavailable) events
  | issued {released : List SessionEvent} (c : Bytes) (t : ℤ) (evicted : List SessionCredentialDigest) (n : ℕ)
      (d : SessionCredentialDigest) (hgenerated : env.generate n = .generated c d)
      (hreleased : ReleaseEvents previousSession released) :
      Established env p previousSession (.ok c) (.issued c p t :: (evicted.map SessionEvent.evicted ++ released))

theorem created_established {events : List SessionEvent} (hevents : ReleaseEvents previousSession events) :
    Established env p previousSession
      (match s.createSession env p with
        | (.error _,_) => .error .unavailable
        | (.ok c,_) => .ok c)
      ((s.run env [.createSession p]).2 ++ events) := by
  rcases hcreate : s.createSession env p with ⟨created,after⟩
  cases created with
  | error code =>
    rw [run_createSession_error (by rw [hcreate])]
    exact .failed hevents
  | ok c =>
    obtain ⟨t,evicted,hrun⟩ := run_createSession_ok (s := s) (p := p) (c := c) (by rw [hcreate])
    obtain ⟨n,d,hgenerated⟩ := SessionStore.createAttempts_generated hcreate
    rw [hrun,List.cons_append]
    exact .issued c t evicted n d hgenerated hevents

theorem login_established (previousSession : Bytes) (p : Principal) (s : SessionStore) :
    (Application.login env (.ok p) previousSession s).2 =
      (s.run env (loginCalls env s previousSession p)).1 ∧
    Established env p previousSession (Application.login env (.ok p) previousSession s).1
      (s.run env (loginCalls env s previousSession p)).2 := by
  unfold Application.login loginCalls
  by_cases hprevious : previousSession = []
  · subst hprevious
    have hcreated := @created_established env s [] p [] (Or.inl rfl)
    rw [List.append_nil] at hcreated
    simp only [List.isEmpty_nil,if_true]
    rcases hcreate : s.createSession env p with ⟨created,after⟩
    rw [hcreate] at hcreated
    have hafter : (s.run env [.createSession p]).1 = after := by rw [run_createSession,hcreate]
    cases created <;> exact ⟨hafter.symm,hcreated⟩
  · have hempty : previousSession.isEmpty = false := by simpa using hprevious
    have hevents := @invalidate_events env _ hprevious s
    simp only [hempty,Bool.false_eq_true,if_false]
    rcases hinvalidate : s.invalidate env previousSession with ⟨found,middle⟩
    have hmiddle : (s.run env [.invalidate previousSession]).1 = middle := by
      rw [run_invalidate,hinvalidate]
    cases found with
    | error code =>
      exact ⟨hmiddle.symm,.failed hevents⟩
    | ok found =>
      dsimp only
      have hsplit := @run_append env s [.invalidate previousSession] [.createSession p]
      rw [List.singleton_append] at hsplit
      rw [hsplit,hmiddle]
      have hcreated := @created_established env middle _ p _ hevents
      rcases hcreate : middle.createSession env p with ⟨created,after⟩
      rw [hcreate] at hcreated
      have hafter : (middle.run env [.createSession p]).1 = after := by rw [run_createSession,hcreate]
      cases created <;> exact ⟨hafter.symm,hcreated⟩

end Login

theorem authenticate_verified {state : SharedState} {attempt : Attempt} {credential : AuthenticatedCredential}
    (h : (authenticate clock state attempt).result = .ok credential) : ∃ found : CredentialRecord,
      attempt.findByLogin attempt.login = .ok (some found) ∧
      attempt.verify attempt.password found.encodedPasswordVerifier = .ok true ∧
      credential.principal = ⟨found.identity⟩ := by
  unfold authenticate at h
  dsimp only at h
  split at h
  · cases h
  · split at h
    · cases h
    · rename_i found hfound
      split at h
      · cases h
      · rename_i matches_ hverify
        split at h
        · rename_i record
          rcases attempt.answer_cases record with hanswer | hanswer
          · rw [hanswer] at h
            cases h
            exact ⟨record,hfound,hverify,rfl⟩
          · rw [hanswer] at h
            cases h
        · cases h

/-- A login that reaches the service has passed every check of the handler. -/
theorem readLogin_ok {temporaryBody : Bool} {request : RoutedRequest} {submitted : LoginRequest} {previous : Bytes}
    (h : readLogin date temporaryBody request = .ok (submitted,previous)) :
    hasJsonContentType request.fields = true ∧ LoginJsonParser.parse request.body = some submitted ∧
      sessionCookieCredential request.fields = ⟨previous,false⟩ := by
  unfold readLogin at h
  dsimp only at h
  generalize hmemory : (if temporaryBody = true then [] else request.body) = body at h
  split at h
  · cases h
  rename_i hmedia
  split at h
  · cases h
  rename_i hbody
  split at h
  · cases h
  rename_i parsed hparse
  split at h
  · cases h
  rename_i hcookie
  obtain ⟨rfl,rfl⟩ := Prod.mk.inj (Except.ok.inj h)
  rw [if_neg fun htemporary => hbody (Or.inr (Or.inr (Or.inr htemporary)))] at hmemory
  refine ⟨by simpa using hmedia,hmemory ▸ hparse,?_⟩
  cases hcredential : sessionCookieCredential request.fields with
  | mk value malformed =>
    rw [hcredential] at hcookie
    cases malformed with
    | false => rfl
    | true => exact absurd rfl hcookie

theorem readLogin_error {temporaryBody : Bool} {request : RoutedRequest} {response : RouteResult}
    (h : readLogin date temporaryBody request = .error response) :
    Refused response .unsupportedMediaType (ascii "unsupported_media_type") ∨
      Refused response .badRequest (ascii "invalid_login_request") := by
  unfold readLogin at h
  dsimp only at h
  generalize (if temporaryBody = true then [] else request.body) = body at h
  split at h
  · obtain rfl := Except.error.inj h
    exact .inl unsupportedMediaType_refused
  · split at h
    · obtain rfl := Except.error.inj h
      exact .inr malformedLogin_refused
    · split at h
      · obtain rfl := Except.error.inj h
        exact .inr malformedLogin_refused
      · split at h
        · obtain rfl := Except.error.inj h
          exact .inr malformedLogin_refused
        · cases h

theorem sessionCookie_value {credential : Bytes} (h : validEncodedCredential credential = true) (secure : Bool) :
    (sessionCookie credential secure).all isHttpFieldValueByte = true ∧
      (sessionCookie credential secure).length ≤ 1000 := by
  rw [validEncodedCredential,Bool.and_eq_true,decide_eq_true_eq] at h
  have hdigit : ∀ b : Byte, ((char '0' ≤ b && b ≤ char '9') || (char 'a' ≤ b && b ≤ char 'f')) = true →
      isHttpFieldValueByte b = true := forall_byte (by decide +kernel)
  have hcredential : credential.all isHttpFieldValueByte = true :=
    List.all_eq_true.mpr fun b hb => hdigit b (List.all_eq_true.mp h.2 b hb)
  have hlength : credential.length = 64 := h.1
  have hname : sessionCookieName.all isHttpFieldValueByte = true ∧ sessionCookieName.length = 14 := by decide
  have hattributes : (ascii "; Path=/; HttpOnly; SameSite=Strict").all isHttpFieldValueByte = true ∧
      (ascii "; Path=/; HttpOnly; SameSite=Strict").length = 35 := by decide +kernel
  have hsecure : (if secure then ascii "; Secure" else []).all isHttpFieldValueByte = true ∧
      (if secure then ascii "; Secure" else []).length ≤ 8 := by cases secure <;> decide
  have hequals : isHttpFieldValueByte (char '=') = true := by decide
  constructor
  · rw [sessionCookie,List.all_append,List.all_append,List.all_append,List.all_cons,hname.1,hequals,hcredential,
      hattributes.1,hsecure.1]
    rfl
  · rw [sessionCookie,List.length_append,List.length_append,List.length_append,List.length_cons,hname.2,hlength,
      hattributes.2]
    omega

theorem expiredSessionCookie_value (secure : Bool) : (expiredSessionCookie secure).all isHttpFieldValueByte = true ∧
    (expiredSessionCookie secure).length ≤ 1000 := by
  cases secure <;> decide +kernel

theorem ReleaseEvents.releases {fields : List HttpHeaderView} {c : Bytes} {events : List SessionEvent}
    (h : ReleaseEvents c events) (hcookie : sessionCookieCredential fields = ⟨c,false⟩) : Releases fields events := by
  rcases h with rfl | ⟨hc,rfl⟩
  · exact .inl rfl
  · exact .inr ⟨c,sessionCookieCredential_iff.mp hcookie,hc,rfl⟩

theorem presented_cases (fields : List HttpHeaderView) :
    ((sessionCookieCredential fields).malformed || (sessionCookieCredential fields).value.isEmpty) = true ∨
    ∃ value, sessionCookieCredential fields = ⟨value,false⟩ ∧ value ≠ [] ∧ value.isEmpty = false := by
  cases sessionCookieCredential fields with
  | mk value malformed =>
    cases malformed with
    | true => exact .inl rfl
    | false =>
      cases value with
      | nil => exact .inl rfl
      | cons b value => exact .inr ⟨b :: value,rfl,by simp,rfl⟩

/-- The store has made the calls of the request, and the answer tells what they have done. -/
structure Answered (env : Session.Environment) (clock : ℕ → TimePoint) (date : Bytes)
    (request : AuthenticationRequest) (server : AuthenticationServer) : Prop where
  sessions : (serve env clock date request server).2.sessions =
    (server.sessions.run env (requestCalls env clock date request server)).1
  accounted : Accounted request (serve env clock date request server).1
    (server.sessions.run env (requestCalls env clock date request server)).2

section EnoughMemory
variable {ports : AuthenticationPorts} {temporaryBody : Bool} {request : RoutedRequest} {server : AuthenticationServer}

theorem unread_login_answered {response : RouteResult} (hread : readLogin date temporaryBody request = .error response) :
    Answered env clock date (.login ports temporaryBody .enough request) server := by
  have hcalls : requestCalls env clock date (.login ports temporaryBody .enough request) server = [] := by
    simp only [requestCalls,hread]
  have hserve : serve env clock date (.login ports temporaryBody .enough request) server =
      (⟨response,none⟩,server) := by
    simp only [serve,guarded,login,hread]
  constructor
  · rw [hcalls,hserve]
    rfl
  · rw [hcalls,hserve]
    rcases readLogin_error hread with hrefused | hrefused
    · exact .loginRefused hrefused
    · exact .loginRefused hrefused

theorem unverified_login_answered {submitted : LoginRequest} {previous : Bytes} {code : AuthenticationErrorCode}
    (hread : readLogin date temporaryBody request = .ok (submitted,previous))
    (hresult : (authenticate clock server.authentication (ports.attempt submitted)).result = .error code) :
    Answered env clock date (.login ports temporaryBody .enough request) server := by
  have hcalls : requestCalls env clock date (.login ports temporaryBody .enough request) server = [] := by
    simp only [requestCalls,hread,hresult]
  have hserve : (serve env clock date (.login ports temporaryBody .enough request) server).2.sessions =
        server.sessions ∧
      ∃ result status identifier, (serve env clock date (.login ports temporaryBody .enough request) server).1 =
        ⟨result,none⟩ ∧ Refused result status identifier := by
    simp only [serve,guarded,login,hread,submitLogin,hresult,Except.map,Application.login]
    cases code with
    | invalidCredentials => exact ⟨rfl,_,_,_,rfl,invalidCredentials_refused⟩
    | throttled => exact ⟨rfl,_,_,_,rfl,authenticationThrottled_refused⟩
    | unavailable => exact ⟨rfl,_,_,_,rfl,authenticationUnavailable_refused⟩
  obtain ⟨hsessions,result,status,identifier,hanswer,hrefused⟩ := hserve
  constructor
  · rw [hcalls,hsessions]
    rfl
  · rw [hcalls,hanswer]
    exact .loginRefused hrefused

theorem verified_login_answered (hissued : IssuesValid env) {submitted : LoginRequest} {previous : Bytes}
    {credential : AuthenticatedCredential} (hread : readLogin date temporaryBody request = .ok (submitted,previous))
    (hresult : (authenticate clock server.authentication (ports.attempt submitted)).result = .ok credential) :
    Answered env clock date (.login ports temporaryBody .enough request) server := by
  obtain ⟨hmedia,hparse,hcookie⟩ := readLogin_ok hread
  obtain ⟨found,hfound,hverified,hprincipal⟩ := authenticate_verified hresult
  have hcalls : requestCalls env clock date (.login ports temporaryBody .enough request) server =
      loginCalls env server.sessions previous credential.principal := by
    simp only [requestCalls,hread,hresult]
  obtain ⟨hsessions,hestablished⟩ := login_established previous credential.principal server.sessions
  have hsubmit : submitLogin env clock ports submitted previous server =
      ((Application.login env (.ok credential.principal) previous server.sessions).1,
        ⟨(authenticate clock server.authentication (ports.attempt submitted)).state,
          (Application.login env (.ok credential.principal) previous server.sessions).2⟩) := by
    simp only [submitLogin,hresult,Except.map]
  constructor
  · rw [hcalls,← hsessions]
    simp only [serve,guarded,login,hread,hsubmit]
    cases (Application.login env (.ok credential.principal) previous server.sessions).1 with
    | error code => cases code <;> rfl
    | ok value => rfl
  · rw [hcalls]
    simp only [serve,guarded,login,hread,hsubmit]
    generalize (server.sessions.run env (loginCalls env server.sessions previous credential.principal)).2 =
      events at hestablished ⊢
    generalize (Application.login env (.ok credential.principal) previous server.sessions).1 =
      established at hestablished ⊢
    cases hestablished with
    | failed hevents => exact .loginUnavailable authenticationUnavailable_refused (hevents.releases hcookie)
    | issued value t evicted n d hgenerated hreleased =>
      have hvalid := hissued n value d hgenerated
      rw [hprincipal]
      refine .loginIssued submitted found value t evicted _ hmedia hparse hfound hverified hvalid ?_
        (hreleased.releases hcookie)
      rw [if_pos rfl]
      apply authenticationResponse_succeeded
      intro cookie hvalue
      obtain rfl := Option.some.inj hvalue
      exact sessionCookie_value hvalid request.transport.secure

end EnoughMemory

theorem enough_login_answered (hissued : IssuesValid env) (ports : AuthenticationPorts) (temporaryBody : Bool)
    (request : RoutedRequest) (server : AuthenticationServer) :
    Answered env clock date (.login ports temporaryBody .enough request) server := by
  cases hread : readLogin date temporaryBody request with
  | error response => exact unread_login_answered hread
  | ok read =>
    obtain ⟨submitted,previous⟩ := read
    cases hresult : (authenticate clock server.authentication (ports.attempt submitted)).result with
    | error code => exact unverified_login_answered hread hresult
    | ok credential => exact verified_login_answered hissued hread hresult

/-- Without memory for the answer to a login its sessions are the same. -/
theorem Accounted.unanswered {ports : AuthenticationPorts} {temporaryBody : Bool} {request : RoutedRequest}
    {answer : Answer} {events : List SessionEvent}
    (h : Accounted (.login ports temporaryBody .enough request) answer events) :
    Accounted (.login ports temporaryBody .beforeAnswer request) ⟨authenticationUnavailable date,none⟩ events := by
  cases h with
  | loginRefused hrefused => exact .loginUnavailable authenticationUnavailable_refused (.inl rfl)
  | loginUnavailable hunavailable hevents => exact .loginUnavailable authenticationUnavailable_refused hevents
  | loginIssued submitted credential value t evicted released hmedia hsubmitted hfound hverified hvalue _ hreleased =>
    refine .loginIssued submitted credential value t evicted released hmedia hsubmitted hfound hverified hvalue ?_
      hreleased
    rw [if_neg (by decide)]
    exact authenticationUnavailable_refused

theorem login_answered (hissued : IssuesValid env) (ports : AuthenticationPorts) (temporaryBody : Bool)
    (memory : HandlerMemory) (request : RoutedRequest) (server : AuthenticationServer) :
    Answered env clock date (.login ports temporaryBody memory request) server := by
  have henough := @enough_login_answered env clock date hissued ports temporaryBody request server
  cases memory with
  | beforeService => exact ⟨rfl,.loginUnavailable authenticationUnavailable_refused (.inl rfl)⟩
  | beforeAnswer => exact ⟨henough.sessions,henough.accounted.unanswered⟩
  | enough => exact henough

theorem enough_logout_answered (request : RoutedRequest) (server : AuthenticationServer) :
    Answered env clock date (.logout .enough request) server := by
  rcases presented_cases request.fields with hnone | ⟨value,hcookie,hvalue,hempty⟩
  · have hcalls : requestCalls env clock date (.logout .enough request) server = [] := by
      simp only [requestCalls,presentedCalls,hnone,if_true]
    have hserve : serve env clock date (.logout .enough request) server =
        (⟨authenticationResponse date none,none⟩,server) := by
      simp only [serve,guarded,logout,hnone,if_true]
    constructor
    · rw [hcalls,hserve]
      rfl
    · rw [hcalls,hserve]
      exact .loggedOut none (by simp) (authenticationResponse_succeeded (by simp)) (.inl rfl)
  · have hcalls : requestCalls env clock date (.logout .enough request) server = [.invalidate value] := by
      simp only [requestCalls,presentedCalls,hcookie,hempty,Bool.or_self,Bool.false_eq_true,if_false]
    have hevents := @invalidate_events env _ hvalue server.sessions
    have hrun := @run_invalidate env value server.sessions
    rcases hinvalidate : server.sessions.invalidate env value with ⟨found,after⟩
    rw [hinvalidate] at hrun
    have hsessions : (server.sessions.run env [.invalidate value]).1 = after := by rw [hrun]
    cases found with
    | error code =>
      have hserve : serve env clock date (.logout .enough request) server =
          (⟨authenticationUnavailable date,none⟩,{ server with sessions := after }) := by
        simp only [serve,guarded,logout,Application.logout,hcookie,hempty,Bool.or_self,Bool.false_eq_true,if_false,
          hinvalidate]
      constructor
      · rw [hcalls,hsessions,hserve]
      · rw [hcalls,hrun,hserve]
        exact .logoutUnavailable authenticationUnavailable_refused (.inl rfl)
    | ok found =>
      have hserve : serve env clock date (.logout .enough request) server =
          (⟨authenticationResponse date (some (expiredSessionCookie request.transport.secure)),none⟩,
            { server with sessions := after }) := by
        simp only [serve,guarded,logout,Application.logout,hcookie,hempty,Bool.or_self,Bool.false_eq_true,if_false,
          hinvalidate]
      constructor
      · rw [hcalls,hsessions,hserve]
      · rw [hcalls,hserve]
        refine .loggedOut (some (expiredSessionCookie request.transport.secure)) ?_ ?_ (hevents.releases hcookie)
        · intro cookie hmem
          exact (Option.some.inj hmem).symm
        · apply authenticationResponse_succeeded
          intro cookie hmem
          obtain rfl := Option.some.inj hmem
          exact expiredSessionCookie_value request.transport.secure

theorem logout_answered (memory : HandlerMemory) (request : RoutedRequest) (server : AuthenticationServer) :
    Answered env clock date (.logout memory request) server := by
  have henough := @enough_logout_answered env clock date request server
  cases memory with
  | beforeService => exact ⟨rfl,.logoutUnavailable authenticationUnavailable_refused (.inl rfl)⟩
  | beforeAnswer =>
    refine ⟨henough.sessions,.logoutUnavailable authenticationUnavailable_refused ?_⟩
    cases henough.accounted with
    | loggedOut cookie hcookie hresult hevents => exact hevents
    | logoutUnavailable hunavailable hevents => exact hevents
  | enough => exact henough

theorem protectedRoute_answered (handle : ApiRequestContext → RouteResult) (request : RoutedRequest)
    (server : AuthenticationServer) : Answered env clock date (.protectedRoute handle request) server := by
  rcases presented_cases request.fields with hnone | ⟨value,hcookie,hvalue,hempty⟩
  · have hcalls : requestCalls env clock date (.protectedRoute handle request) server = [] := by
      simp only [requestCalls,presentedCalls,hnone,if_true]
    have hserve : serve env clock date (.protectedRoute handle request) server =
        (⟨authenticationRequired date,none⟩,server) := by
      simp only [serve,makeSessionAuthenticationPolicy,hnone,if_true,Option.getD_some]
    constructor
    · rw [hcalls,hserve]
      rfl
    · rw [hcalls,hserve]
      exact .turnedAway authenticationRequired_refused
  · have hcalls : requestCalls env clock date (.protectedRoute handle request) server = [.authenticate value] := by
      simp only [requestCalls,presentedCalls,hcookie,hempty,Bool.or_self,Bool.false_eq_true,if_false]
    have hrun := @run_authenticate env value server.sessions
    rcases hauthenticate : server.sessions.authenticate env value with ⟨found,after⟩
    rw [hauthenticate] at hrun
    cases found with
    | error code =>
      have hserve : serve env clock date (.protectedRoute handle request) server =
          (⟨authenticationUnavailable date,none⟩,{ server with sessions := after }) := by
        simp only [serve,makeSessionAuthenticationPolicy,hcookie,hempty,Bool.or_self,Bool.false_eq_true,
          if_false,hauthenticate,Option.getD_some]
      constructor
      · rw [hcalls,hrun,hserve]
      · rw [hcalls,hrun,hserve]
        cases code with
        | resourceAllocationFailed =>
          exact .lost value _ (sessionCookieCredential_iff.mp hcookie) hvalue authenticationUnavailable_refused
        | _ => exact .turnedAway authenticationUnavailable_refused
    | ok found =>
      cases found with
      | none =>
        have hserve : serve env clock date (.protectedRoute handle request) server =
            (⟨authenticationRequired date,none⟩,{ server with sessions := after }) := by
          simp only [serve,makeSessionAuthenticationPolicy,hcookie,hempty,Bool.or_self,Bool.false_eq_true,
          if_false,hauthenticate,Option.getD_some]
        constructor
        · rw [hcalls,hrun,hserve]
        · rw [hcalls,hrun,hserve]
          exact .turnedAway authenticationRequired_refused
      | some principal =>
        have hserve : serve env clock date (.protectedRoute handle request) server =
            (⟨handle { request := request, parameters := ⟨[]⟩, authenticatedPrincipal := some principal },
              some principal⟩,{ server with sessions := after }) := by
          simp only [serve,makeSessionAuthenticationPolicy,hcookie,hempty,Bool.or_self,Bool.false_eq_true,
            if_false,hauthenticate,noteHandler,Option.getD_some]
        constructor
        · rw [hcalls,hrun,hserve]
        · rw [hcalls,hrun,hserve]
          exact .served principal value _ (sessionCookieCredential_iff.mp hcookie) hvalue

theorem serve_answered (hissued : IssuesValid env) (request : AuthenticationRequest) (server : AuthenticationServer) :
    Answered env clock date request server := by
  cases request with
  | login ports temporaryBody memory request => exact login_answered hissued ports temporaryBody memory request server
  | logout memory request => exact logout_answered memory request server
  | protectedRoute handle request => exact protectedRoute_answered handle request server

section Runs
variable {handle : ApiRequestContext → RouteResult} {request : RoutedRequest} {server : AuthenticationServer}
  {p : Principal}

/-- A protected handler runs for whom the store knows by the presented cookie. -/
theorem serve_principal : (serve env clock date (.protectedRoute handle request) server).1.principal = some p ↔
    ∃ value, sessionCookieCredential request.fields = ⟨value,false⟩ ∧ value ≠ [] ∧
      (server.sessions.authenticate env value).1 = .ok (some p) := by
  rcases presented_cases request.fields with hnone | ⟨value,hcookie,hvalue,hempty⟩
  · simp only [serve,makeSessionAuthenticationPolicy,hnone,if_true]
    constructor
    · intro h
      cases h
    · rintro ⟨value,hcookie,hvalue,-⟩
      rw [hcookie,Bool.false_or,List.isEmpty_iff] at hnone
      exact absurd hnone hvalue
  · have hsame : (∃ other, sessionCookieCredential request.fields = ⟨other,false⟩ ∧ other ≠ [] ∧
        (server.sessions.authenticate env other).1 = .ok (some p)) ↔
          (server.sessions.authenticate env value).1 = .ok (some p) := by
      constructor
      · rintro ⟨other,hother,-,hfound⟩
        rw [hcookie] at hother
        cases hother
        exact hfound
      · intro hfound
        exact ⟨value,hcookie,hvalue,hfound⟩
    rw [hsame]
    rcases hauthenticate : server.sessions.authenticate env value with ⟨found,after⟩
    simp only [serve,makeSessionAuthenticationPolicy,hcookie,hempty,Bool.or_self,Bool.false_eq_true,if_false,
      hauthenticate]
    cases found with
    | error code => simp
    | ok found => cases found <;> simp [noteHandler]

/-- What holds of a server and its exchanges at any time. -/
structure Consistent (env : Session.Environment) (policy : SessionStorePolicy)
    (state : AuthenticationServer × List Exchange) : Prop where
  kept : state.1.sessions.policy = policy
  agrees : Agrees env policy (env.clock state.1.sessions.readings) state.1.sessions.entries (sessionLog state.2)
  accounted : ∀ exchanged ∈ state.2, Accounted exchanged.request exchanged.answer exchanged.events

end Runs

def zeroCodec : Session.Environment where
  clock n := n
  generate _ := .generated (List.replicate 64 (char '0')) (Vector.replicate 32 0)
  digest c := if c = List.replicate 64 (char '0') then some (Vector.replicate 32 0) else none
  unavailable _ := false
  exhausted _ := false

theorem zeroCodec_faithful : Faithful zeroCodec := by
  constructor
  · intro n c d h
    obtain ⟨rfl,rfl⟩ := GenerateOutcome.generated.inj h
    rfl
  · intro c c' d h h'
    simp only [zeroCodec] at h h'
    split_ifs at h h' with hc hc'
    rw [hc,hc']

theorem zeroCodec_valid : IssuesValid zeroCodec := by
  intro n c d h
  obtain ⟨rfl,rfl⟩ := GenerateOutcome.generated.inj h
  decide

def bareRequest : RoutedRequest := ⟨⟨.get,ascii "/files",[],[]⟩,⟨[],[],false,false⟩⟩

end SpareNode.Authentication
