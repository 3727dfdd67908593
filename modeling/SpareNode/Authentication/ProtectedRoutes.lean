import SpareNode.Authentication.AuthenticationApi
import SpareNode.Http.Api.FilesystemApi
import SpareNode.Http.Routing.RouteRegistration

/-! # Dispatch through the policies

What runs in the course of a dispatch is noted in a log. A filesystem operation runs behind all
policies, and in particular behind a session store that has known the request's cookie; the only
handlers in front of them are those of the two authentication paths.
-/
namespace SpareNode.Authentication
open Http Http.Api Session

inductive PolicyStage where
  | transport | sessionAuthentication | originCsrf | authorization | throttling | resourceCoordination
deriving DecidableEq, Repr

/-- What has run. A stage is noted with the session store that it finds, and once more when it
calls the next one. -/
inductive ApiEvent where
  | entered (stage : PolicyStage) (sessions : Option SessionStore)
  | passed (stage : PolicyStage)
  | operated (operation : FilesystemOperation) (suffix : Bytes)
  | loggedIn
  | loggedOut

/-- A server whose rest is a log and everything else. -/
abbrev Observed (ρ : Type) := ServerState (List ApiEvent × ρ)

variable {ρ : Type}

namespace Observed

def log (server : Observed ρ) : List ApiEvent := server.rest.1

def note (event : ApiEvent) (server : Observed ρ) : Observed ρ :=
  { server with rest := (server.rest.1 ++ [event],server.rest.2) }

@[simp] theorem note_log (event : ApiEvent) (server : Observed ρ) : (server.note event).log = server.log ++ [event] :=
  rfl

@[simp] theorem note_sessions (event : ApiEvent) (server : Observed ρ) :
    (server.note event).sessions = server.sessions := rfl

def run {α : Type} (work : StateM (ServerState ρ) α) : StateM (Observed ρ) α := fun server =>
  let result := work ⟨server.sessions,server.rest.2⟩
  (result.1,⟨result.2.sessions,(server.rest.1,result.2.rest)⟩)

@[simp] theorem run_log {α : Type} (work : StateM (ServerState ρ) α) (server : Observed ρ) :
    (run work server).2.log = server.log := rfl

end Observed

/-- A policy that notes when it runs and when it calls the next handler. -/
def observe (stage : PolicyStage) (policy : ApiRequestDecorator (Observed ρ)) :
    ApiRequestDecorator (Observed ρ) := fun next context server =>
  policy (fun context server => next context (server.note (.passed stage))) context
    (server.note (.entered stage server.sessions))

def observePolicies (policies : ProtectedRoutePolicies (Observed ρ)) : ProtectedRoutePolicies (Observed ρ) where
  transport := policies.transport.map (observe .transport)
  sessionAuthentication := policies.sessionAuthentication.map (observe .sessionAuthentication)
  originCsrf := policies.originCsrf.map (observe .originCsrf)
  authorization := policies.authorization.map (observe .authorization)
  throttling := policies.throttling.map (observe .throttling)
  resourceCoordination := policies.resourceCoordination.map (observe .resourceCoordination)

def observeLocation (location : FilesystemApiLocation (ServerState ρ)) : FilesystemApiLocation (Observed ρ) where
  apiPath := location.apiPath
  handle operation request suffix := fun server =>
    Observed.run (location.handle operation request suffix) (server.note (.operated operation suffix))

def observeAuthentication (handlers : AuthenticationHandlers (ServerState ρ)) :
    AuthenticationHandlers (Observed ρ) where
  login request := fun server => Observed.run (handlers.login request) (server.note .loggedIn)
  logout request := fun server => Observed.run (handlers.logout request) (server.note .loggedOut)

/-- A policy rejects on its own, so that nothing behind it runs, or calls the next handler once
on the request as it is. -/
def RejectsOrCalls (policy : ApiRequestDecorator (Observed ρ)) : Prop :=
  ∀ next context server,
    (policy next context server).2.log = server.log ∨
    ∃ principal server', server'.log = server.log ∧
      (policy next context server).2.log =
        (next { context with authenticatedPrincipal := principal } server').2.log

/-- What a stage must have found to call the next one: the session stage a store that
authenticates the session cookie of the request. -/
def Passing (env : Session.Environment) (fields : List HttpHeaderView) (sessions : Option SessionStore) :
    PolicyStage → Prop
  | .sessionAuthentication => ∃ store value principal, sessions = some store ∧
      SessionCookie fields value ∧ (store.authenticate env value).1 = .ok (some principal)
  | _ => True

/-- What a protected route notes: its stages in order, each passed before the next one is
entered, up to one that rejects; the operation behind all of them. -/
inductive Trace (env : Session.Environment) (fields : List HttpHeaderView) :
    List PolicyStage → List ApiEvent → Prop where
  | operated (operation : FilesystemOperation) (suffix : Bytes) : Trace env fields [] [.operated operation suffix]
  | rejected (stage : PolicyStage) (stages : List PolicyStage) (sessions : Option SessionStore) :
      Trace env fields (stage :: stages) [.entered stage sessions]
  | passed (stage : PolicyStage) (stages : List PolicyStage) (sessions : Option SessionStore)
      (events : List ApiEvent) (passing : Passing env fields sessions stage)
      (rest : Trace env fields stages events) :
      Trace env fields (stage :: stages) (.entered stage sessions :: .passed stage :: events)

/-- The stages with their policies, in the order of the slots. -/
def stagePolicies (policies : ProtectedRoutePolicies (Observed ρ)) :
    List (PolicyStage × Option (ApiRequestDecorator (Observed ρ))) :=
  [(.transport,policies.transport),(.sessionAuthentication,policies.sessionAuthentication),
    (.originCsrf,policies.originCsrf),(.authorization,policies.authorization),
    (.throttling,policies.throttling),(.resourceCoordination,policies.resourceCoordination)]

def configuredStages (policies : ProtectedRoutePolicies (Observed ρ)) : List PolicyStage :=
  (stagePolicies policies).filterMap (fun slot => if slot.2.isSome then some slot.1 else none)

def StagePolicy (env : Session.Environment) (stage : PolicyStage) (policy : ApiRequestDecorator (Observed ρ)) :
    Prop :=
  ∀ next context server,
    (policy next context server).2.log = server.log ∨
    ∃ principal server', server'.log = server.log ∧
      Passing env context.request.fields server.sessions stage ∧
      (policy next context server).2.log =
        (next { context with authenticatedPrincipal := principal } server').2.log

theorem RejectsOrCalls.stagePolicy {policy : ApiRequestDecorator (Observed ρ)} (env : Session.Environment)
    (h : RejectsOrCalls policy) {stage : PolicyStage} (hstage : stage ≠ .sessionAuthentication) :
    StagePolicy env stage policy := by
  intro next context server
  rcases h next context server with hrejected | ⟨principal,server',hlog,hcalled⟩
  · exact Or.inl hrejected
  · refine Or.inr ⟨principal,server',hlog,?_,hcalled⟩
    cases stage <;> trivial

/-- The session policy calls the next handler only behind an authenticated cookie. -/
theorem sessionPolicy_stagePolicy (env : Session.Environment) (date : Bytes) :
    StagePolicy env .sessionAuthentication
      (makeSessionAuthenticationPolicy env date : ApiRequestDecorator (Observed ρ)) := by
  intro next context server
  unfold makeSessionAuthenticationPolicy
  split
  · exact Or.inl rfl
  · rename_i sessions hsessions
    dsimp only
    split
    · exact Or.inl rfl
    · rename_i hcredential
      rw [Bool.or_eq_true,not_or,Bool.not_eq_true,Bool.not_eq_true] at hcredential
      split
      · exact Or.inl rfl
      · exact Or.inl rfl
      · rename_i principal after hauthenticate
        have hcookie : SessionCookie context.request.fields
            (sessionCookieCredential context.request.fields).value := by
          refine sessionCookieCredential_sound ?_ (by simpa using hcredential.2)
          rw [← hcredential.1]
        refine Or.inr ⟨some principal,{ server with sessions := some after },rfl,?_,rfl⟩
        exact ⟨sessions,_,principal,hsessions,hcookie,by rw [hauthenticate]⟩

theorem decorateWith_cons {σ : Type} (slot : Option (ApiRequestDecorator σ))
    (slots : List (Option (ApiRequestDecorator σ))) (handler : ApiRequestHandler σ) :
    decorateWith (slot :: slots) handler =
      match slot with
      | some policy => policy (decorateWith slots handler)
      | none => decorateWith slots handler := by
  cases slot <;> simp [decorateWith]

/-- The handlers that a protected route may have: each is one filesystem operation. -/
def Operates (handler : ApiRequestHandler (Observed ρ)) : Prop :=
  ∀ context server, ∃ operation suffix,
    (handler context server).2.log = server.log ++ [.operated operation suffix]

/-- The policies run in the order of their slots, although they are composed from the last. -/
theorem pipeline_trace {env : Session.Environment}
    {slots : List (PolicyStage × Option (ApiRequestDecorator (Observed ρ)))}
    (hslots : ∀ slot ∈ slots, ∀ policy, slot.2 = some policy → StagePolicy env slot.1 policy)
    {handler : ApiRequestHandler (Observed ρ)} (hhandler : Operates handler)
    (context : ApiRequestContext) (server : Observed ρ) :
    ∃ events, (decorateWith (slots.map (fun slot => slot.2.map (observe slot.1))) handler context server).2.log =
        server.log ++ events ∧
      Trace env context.request.fields
        (slots.filterMap (fun slot => if slot.2.isSome then some slot.1 else none)) events := by
  induction slots generalizing context server with
  | nil =>
    obtain ⟨operation,suffix,hlog⟩ := hhandler context server
    exact ⟨_,hlog,.operated operation suffix⟩
  | cons slot slots ih =>
    obtain ⟨stage,_ | policy⟩ := slot
    · rw [List.map_cons,decorateWith_cons]
      exact ih (fun slot hslot => hslots slot (List.mem_cons_of_mem _ hslot)) context server
    · have hpolicy := hslots (stage,some policy) List.mem_cons_self policy rfl
      have hinner := ih (fun slot hslot => hslots slot (List.mem_cons_of_mem _ hslot))
      rw [List.map_cons,decorateWith_cons]
      dsimp only [Option.map_some]
      rcases hpolicy (fun context server =>
          decorateWith (slots.map (fun slot => slot.2.map (observe slot.1))) handler context
            (server.note (.passed stage))) context (server.note (.entered stage server.sessions)) with
        hrejected | ⟨principal,server',hlog,hpassing,hcalled⟩
      · exact ⟨[.entered stage server.sessions],hrejected,.rejected stage _ server.sessions⟩
      · obtain ⟨events,hevents,htrace⟩ := hinner { context with authenticatedPrincipal := principal }
          (server'.note (.passed stage))
        refine ⟨.entered stage server.sessions :: .passed stage :: events,?_,
          .passed stage _ server.sessions events hpassing htrace⟩
        rw [observe,hcalled,hevents,Observed.note_log,hlog,Observed.note_log]
        simp

/-- An operation at the end of a trace has the session stage before it. -/
theorem Trace.authenticated {env : Session.Environment} {fields : List HttpHeaderView}
    {stages : List PolicyStage} {events : List ApiEvent} (h : Trace env fields stages events)
    (hstage : .sessionAuthentication ∈ stages) {operation : FilesystemOperation} {suffix : Bytes}
    (hoperated : .operated operation suffix ∈ events) :
    ∃ store value principal, SessionCookie fields value ∧
      .entered .sessionAuthentication (some store) ∈ events ∧
      (store.authenticate env value).1 = .ok (some principal) := by
  induction h with
  | operated operation suffix => cases hstage
  | rejected stage stages sessions => simp at hoperated
  | passed stage stages sessions events passing rest ih =>
    rcases List.mem_cons.mp hstage with rfl | hlater
    · obtain ⟨store,value,principal,rfl,hcookie,hauthenticate⟩ := passing
      exact ⟨store,value,principal,hcookie,List.mem_cons_self,hauthenticate⟩
    · obtain ⟨store,value,principal,hcookie,hentered,hauthenticate⟩ := ih hlater (by simpa using hoperated)
      exact ⟨store,value,principal,hcookie,List.mem_cons_of_mem _ (List.mem_cons_of_mem _ hentered),
        hauthenticate⟩

/-- The routes of a server: protected operations, and the two public handlers if there are any. -/
inductive Known (decorate : ProtectedRouteDecorator (Observed ρ))
    (authentication : Option (AuthenticationHandlers (ServerState ρ))) :
    Route (HttpRouteHandler (Observed ρ)) → Prop where
  | protected_ (method : HttpMethod) (pathPrefix : Bytes) (wildcard : Bool)
      (location : FilesystemApiLocation (ServerState ρ)) (operation : FilesystemOperation)
      (suffix : HttpRouteParameters → Bytes) :
      Known decorate authentication ⟨method,pathPrefix,wildcard,decorate (fun request parameters =>
        (observeLocation location).handle operation request (suffix parameters))⟩
  | login (handlers : AuthenticationHandlers (ServerState ρ)) (registered : authentication = some handlers) :
      Known decorate authentication ⟨.post,loginPath,false,fun request _ =>
        (observeAuthentication handlers).login request⟩
  | logout (handlers : AuthenticationHandlers (ServerState ρ)) (registered : authentication = some handlers) :
      Known decorate authentication ⟨.post,logoutPath,false,fun request _ =>
        (observeAuthentication handlers).logout request⟩

/-- A builder with its decorator whose routes are all known. -/
structure Composed (decorate : ProtectedRouteDecorator (Observed ρ))
    (authentication : Option (AuthenticationHandlers (ServerState ρ)))
    (builder : ApiRouterBuilder (Observed ρ)) : Prop where
  decorator : builder.protectedRouteDecorator = some decorate
  known : ∀ route ∈ builder.router.routes, Known decorate authentication route

theorem registerRoute_ok {H : Type} {router router' : HttpRouter H} {method : HttpMethod} {pattern : Bytes}
    {handler : H} (h : router.registerRoute method pattern (some handler) = .ok router') :
    router'.routes = router.routes ++ [⟨method,if (ascii "/*").isSuffixOf pattern then pattern.dropLast else pattern,
      (ascii "/*").isSuffixOf pattern,handler⟩] := by
  obtain ⟨-,-,-,rfl⟩ := @HttpRouter.registerRoute_inv H router router' ⟨method,pattern,handler⟩ h
  rfl

variable {decorate : ProtectedRouteDecorator (Observed ρ)}
  {authentication : Option (AuthenticationHandlers (ServerState ρ))} {builder builder' : ApiRouterBuilder (Observed ρ)}

theorem registerPublic_composed {route : ApiRoute (Observed ρ)} (h : Composed decorate authentication builder)
    (hroute : Known decorate authentication ⟨route.method,
      if (ascii "/*").isSuffixOf route.pattern then route.pattern.dropLast else route.pattern,
      (ascii "/*").isSuffixOf route.pattern,route.handler⟩)
    (hregister : builder.registerPublic route = .ok builder') : Composed decorate authentication builder' := by
  unfold ApiRouterBuilder.registerPublic at hregister
  split at hregister
  · cases hregister
  · rename_i router hrouter
    cases hregister
    refine ⟨h.decorator,?_⟩
    intro other hother
    rw [registerRoute_ok hrouter] at hother
    rcases List.mem_append.mp hother with hold | hnew
    · exact h.known other hold
    · rw [List.mem_singleton.mp hnew]
      exact hroute

theorem registerProtected_composed (location : FilesystemApiLocation (ServerState ρ)) :
    KeptBy (Composed decorate authentication) (observeLocation location) := by
  intro method pattern operation suffix builder builder' h hregister
  unfold ApiRouterBuilder.registerProtected at hregister
  rw [h.decorator] at hregister
  dsimp only at hregister
  split at hregister
  · cases hregister
  · rename_i router hrouter
    cases hregister
    refine ⟨rfl,?_⟩
    intro other hother
    rw [registerRoute_ok hrouter] at hother
    rcases List.mem_append.mp hother with hold | hnew
    · exact h.known other hold
    · rw [List.mem_singleton.mp hnew]
      exact .protected_ method _ _ location operation suffix

theorem registerFilesystemApiRoutes_composed {locations : List (FilesystemApiLocation (ServerState ρ))}
    (h : Composed decorate authentication builder)
    (hregister : registerFilesystemApiRoutes builder (locations.map observeLocation) = .ok builder') :
    Composed decorate authentication builder' := by
  refine registerFilesystemApiRoutes_kept ?_ h hregister
  intro location hlocation
  obtain ⟨location,-,rfl⟩ := List.mem_map.mp hlocation
  exact registerProtected_composed location

theorem registerAuthenticationApiRoutes_composed {handlers : AuthenticationHandlers (ServerState ρ)}
    (h : Composed decorate (some handlers) builder)
    (hregister : registerAuthenticationApiRoutes builder (some (observeAuthentication handlers)) = .ok builder') :
    Composed decorate (some handlers) builder' := by
  unfold registerAuthenticationApiRoutes at hregister
  dsimp only at hregister
  split at hregister
  · cases hregister
  · rename_i middle hlogin
    have hmiddle : Composed decorate (some handlers) middle :=
      registerPublic_composed h (.login handlers rfl) hlogin
    split at hregister
    · cases hregister
    · rename_i last hlogout
      cases hregister
      exact registerPublic_composed hmiddle (.logout handlers rfl) hlogout

theorem toOption_ok {ε α : Type} {x : Except ε α} {a : α} (h : x.toOption = some a) : x = .ok a := by
  cases x with
  | error e => cases h
  | ok b => exact congrArg _ (Option.some.inj h)

/-- The routes that `make_server_runtime_plan` registers, with or without authentication. -/
def registerServerRoutes {σ : Type} (builder : ApiRouterBuilder σ)
    (service : Option (AuthenticationHandlers σ)) (locations : List (FilesystemApiLocation σ)) :
    Option (ApiRouterBuilder σ) :=
  match service with
  | none => (registerFilesystemApiRoutes builder locations).toOption
  | some handlers =>
    match registerAuthenticationApiRoutes builder (some handlers) with
    | .error _ => none
    | .ok builder => (registerFilesystemApiRoutes builder locations).toOption

def withSessionPolicy (env : Session.Environment) (date : Bytes) (others : ProtectedRoutePolicies (Observed ρ)) :
    ProtectedRoutePolicies (Observed ρ) :=
  { others with sessionAuthentication := some (makeSessionAuthenticationPolicy env date) }

/-- The router of a server whose policies, handlers and locations are observed. -/
def observedRouter (env : Session.Environment) (date : Bytes) (others : ProtectedRoutePolicies (Observed ρ))
    (authentication : Option (AuthenticationHandlers (ServerState ρ)))
    (locations : List (FilesystemApiLocation (ServerState ρ))) :
    Option (HttpRouter (HttpRouteHandler (Observed ρ))) :=
  let policies := observePolicies (withSessionPolicy env date others)
  (registerServerRoutes { protectedRouteDecorator := some (makeProtectedRouteDecorator policies) }
    (authentication.map observeAuthentication) (locations.map observeLocation)).map ApiRouterBuilder.build

theorem observedRouter_known {env : Session.Environment} {date : Bytes}
    {others : ProtectedRoutePolicies (Observed ρ)} {locations : List (FilesystemApiLocation (ServerState ρ))}
    {router : HttpRouter (HttpRouteHandler (Observed ρ))}
    (h : observedRouter env date others authentication locations = some router) :
    ∀ route ∈ router.routes, Known (makeProtectedRouteDecorator (observePolicies (withSessionPolicy env date others)))
      authentication route := by
  obtain ⟨builder,hbuilder,rfl⟩ := Option.map_eq_some_iff.mp h
  suffices hcomposed : Composed (makeProtectedRouteDecorator (observePolicies (withSessionPolicy env date others)))
      authentication builder from hcomposed.known
  have hstart : Composed (makeProtectedRouteDecorator (observePolicies (withSessionPolicy env date others)))
      authentication { protectedRouteDecorator := some (makeProtectedRouteDecorator
        (observePolicies (withSessionPolicy env date others))) } :=
    ⟨rfl,fun route hroute => nomatch hroute⟩
  unfold registerServerRoutes at hbuilder
  cases authentication with
  | none => exact registerFilesystemApiRoutes_composed hstart (toOption_ok hbuilder)
  | some handlers =>
    dsimp only [Option.map_some] at hbuilder
    split at hbuilder
    · cases hbuilder
    · rename_i middle hmiddle
      exact registerFilesystemApiRoutes_composed (registerAuthenticationApiRoutes_composed hstart hmiddle)
        (toOption_ok hbuilder)

theorem withSessionPolicy_slots (env : Session.Environment) (date : Bytes)
    {others : ProtectedRoutePolicies (Observed ρ)}
    (hothers : ∀ slot ∈ stagePolicies others, slot.1 ≠ .sessionAuthentication →
      ∀ policy, slot.2 = some policy → RejectsOrCalls policy) :
    ∀ slot ∈ stagePolicies (withSessionPolicy env date others), ∀ policy,
      slot.2 = some policy → StagePolicy env slot.1 policy := by
  intro slot hslot policy hpolicy
  by_cases hstage : slot.1 = .sessionAuthentication
  · simp only [stagePolicies,withSessionPolicy,List.mem_cons,List.not_mem_nil,or_false] at hslot
    rcases hslot with rfl | rfl | rfl | rfl | rfl | rfl <;> cases hstage
    cases hpolicy
    exact sessionPolicy_stagePolicy env date
  · have hsame : slot ∈ stagePolicies others := by
      simp only [stagePolicies,withSessionPolicy,List.mem_cons,List.not_mem_nil,or_false] at hslot ⊢
      rcases hslot with rfl | rfl | rfl | rfl | rfl | rfl <;> simp at hstage ⊢
    exact (hothers slot hsame hstage policy hpolicy).stagePolicy env hstage

/-- What a request does that no session check precedes: it reaches no registered handler, or it
is a POST to one of the two authentication paths. -/
inductive Unchecked (authentication : Option (AuthenticationHandlers (ServerState ρ))) (request : RoutedRequest) :
    List ApiEvent → Prop where
  | unrouted : Unchecked authentication request []
  | login (registered : authentication.isSome = true) (post : request.method = .post)
      (path : requestPath request.target = loginPath) : Unchecked authentication request [.loggedIn]
  | logout (registered : authentication.isSome = true) (post : request.method = .post)
      (path : requestPath request.target = logoutPath) : Unchecked authentication request [.loggedOut]

theorem accepts_post {H : Type} {method : HttpMethod} {path pathPrefix : Bytes} {handler : H}
    (h : HttpRouter.accepts method path ⟨.post,pathPrefix,false,handler⟩ = true) :
    method = .post ∧ path = pathPrefix := by
  simp only [HttpRouter.accepts,pathMatches,Bool.and_eq_true,Bool.or_eq_true,decide_eq_true_eq] at h
  obtain ⟨hmethod | ⟨-,hget⟩,hpath⟩ := h
  · exact ⟨hmethod.symm,by simpa using hpath⟩
  · cases hget

/-- A filesystem operation runs only behind every policy and an authenticated session cookie, in
every dispatch of every router that the server composes. -/
theorem filesystem_operation_authenticated (env : Session.Environment) (date : Bytes)
    (others : ProtectedRoutePolicies (Observed ρ)) (authentication : Option (AuthenticationHandlers (ServerState ρ)))
    (locations : List (FilesystemApiLocation (ServerState ρ))) (router : HttpRouter (HttpRouteHandler (Observed ρ)))
    (hothers : ∀ slot ∈ stagePolicies others, slot.1 ≠ .sessionAuthentication →
      ∀ policy, slot.2 = some policy → RejectsOrCalls policy)
    (hrouter : observedRouter env date others authentication locations = some router)
    (request : RoutedRequest) (server : Observed ρ) :
    ∃ events, (router.dispatch date request server).2.log = server.log ++ events ∧
      (∀ operation suffix, .operated operation suffix ∈ events → ∃ store value principal,
        SessionCookie request.fields value ∧ .entered .sessionAuthentication (some store) ∈ events ∧
        (store.authenticate env value).1 = .ok (some principal)) ∧
      (Trace env request.fields (configuredStages (withSessionPolicy env date others)) events ∨
        Unchecked authentication request events) := by
  have hunrouted : ∃ events, server.log = server.log ++ events ∧
      (∀ operation suffix, .operated operation suffix ∈ events → ∃ store value principal,
        SessionCookie request.fields value ∧ .entered .sessionAuthentication (some store) ∈ events ∧
        (store.authenticate env value).1 = .ok (some principal)) ∧
      (Trace env request.fields (configuredStages (withSessionPolicy env date others)) events ∨
        Unchecked authentication request events) :=
    ⟨[],(List.append_nil _).symm,(fun _ _ h => nomatch h),Or.inr .unrouted⟩
  unfold HttpRouter.dispatch
  split
  · exact hunrouted
  · dsimp only
    cases hselected : router.selectRoute request.method (requestPath request.target) with
    | none =>
      dsimp only
      split <;> exact hunrouted
    | some route =>
      obtain ⟨hmem,haccepts⟩ := HttpRouter.selectRoute_mem hselected
      cases observedRouter_known hrouter route hmem with
      | protected_ method pathPrefix wildcard location operation suffix =>
        have hslots := withSessionPolicy_slots env date hothers
        have hoperates : Operates (fun context : ApiRequestContext =>
            (observeLocation location).handle operation context.request (suffix context.parameters)) :=
          fun context server => ⟨operation,_,rfl⟩
        obtain ⟨events,hlog,htrace⟩ := pipeline_trace hslots hoperates
          { request := request
            parameters := ⟨capturedSuffix wildcard pathPrefix (requestPath request.target)⟩ } server
        refine ⟨events,hlog,?_,Or.inl htrace⟩
        intro operation suffix hoperated
        refine Trace.authenticated htrace ?_ hoperated
        simp [stagePolicies,withSessionPolicy]
      | login handlers registered =>
        obtain ⟨hpost,hpath⟩ := accepts_post haccepts
        exact ⟨[.loggedIn],rfl,by simp,Or.inr (.login (by simp [registered]) hpost hpath)⟩
      | logout handlers registered =>
        obtain ⟨hpost,hpath⟩ := accepts_post haccepts
        exact ⟨[.loggedOut],rfl,by simp,Or.inr (.logout (by simp [registered]) hpost hpath)⟩

def emptyEnvironment : Session.Environment where
  clock _ := 0
  generate _ := .badAlloc
  digest _ := none
  unavailable _ := false
  exhausted _ := false

def filesLocation : FilesystemApiLocation (ServerState Unit) where
  apiPath := ascii "/files"
  handle _ _ _ := pure (.error ⟨.handlerFailure,0⟩)

def plainTransport : HttpRequestTransportContext := ⟨ascii "127.0.0.1",ascii "127.0.0.1",false,false⟩

theorem filesystem_operation_authenticated_anonymous :
    ∃ router, observedRouter emptyEnvironment [] {} none [filesLocation] = some router ∧
      ∀ operation suffix, .operated operation suffix ∉
        (router.dispatch [] ⟨⟨.get,ascii "/files",[],[]⟩,plainTransport⟩ ⟨none,[],()⟩).2.log := by
  obtain ⟨router,hrouter⟩ : ∃ router,
      observedRouter emptyEnvironment [] {} none [filesLocation] = some router :=
    Option.isSome_iff_exists.mp (by decide +kernel)
  refine ⟨router,hrouter,?_⟩
  intro operation suffix hoperated
  obtain ⟨events,hlog,hauthenticated,-⟩ := filesystem_operation_authenticated emptyEnvironment [] {} none
    [filesLocation] router (by simp [stagePolicies]) hrouter ⟨⟨.get,ascii "/files",[],[]⟩,plainTransport⟩
    ⟨none,[],()⟩
  rw [hlog] at hoperated
  obtain ⟨-,-,-,⟨field,hfield,-⟩,-⟩ := hauthenticated operation suffix hoperated
  cases hfield

end SpareNode.Authentication
