import SpareNode.Authentication.ProtectedRoutes
import SpareNode.Http.Transport.BodyFiles

/-! # Bodies before authentication

The body of a request goes to its temporary file while it is received; the policies of its route
run when it is complete. So a request to a protected route whose session is refused has a
temporary file as soon as one byte of its body has been decoded and stored.
-/
namespace SpareNode.Authentication
open Http Http.Api Session Storage

variable {ρ : Type}

def sessionBuilder (env : Session.Environment) (date : Bytes) : ApiRouterBuilder (ServerState ρ) where
  protectedRouteDecorator := some (makeProtectedRouteDecorator
    { sessionAuthentication := some (makeSessionAuthenticationPolicy env date) })

def routePattern {H : Type} (route : Route H) : Bytes :=
  if route.wildcard then route.pathPrefix ++ ascii "*" else route.pathPrefix

/-- The head of a request selects a route of the protected catalog. -/
def SelectsProtected {σ : Type} (builder : ApiRouterBuilder σ) (head : HttpRequestHead) : Prop :=
  ∃ route, builder.build.selectRoute head.method (requestPath head.target) = some route ∧
    ⟨route.method,routePattern route⟩ ∈ builder.protectedRoutes

theorem selectsProtected_of_any {σ : Type} {builder : ApiRouterBuilder σ} {head : HttpRequestHead}
    (h : (builder.build.selectRoute head.method (requestPath head.target)).any (fun route =>
      decide (⟨route.method,routePattern route⟩ ∈ builder.protectedRoutes)) = true) :
    SelectsProtected builder head := by
  cases hroute : builder.build.selectRoute head.method (requestPath head.target) with
  | none =>
    rw [hroute] at h
    cases h
  | some route =>
    rw [hroute] at h
    exact ⟨route,hroute,of_decide_eq_true h⟩

/-- The login route is in the table, so that no protected route can take its place. -/
structure LoginFirst {σ : Type} (builder : ApiRouterBuilder σ) : Prop where
  registered : ∃ handler, ⟨.post,loginPath,false,handler⟩ ∈ builder.router.routes
  unprotected : ⟨.post,loginPath⟩ ∉ builder.protectedRoutes

theorem registerProtected_loginFirst {σ : Type} (location : FilesystemApiLocation σ) : KeptBy LoginFirst location := by
  intro method pattern operation suffix builder builder' h hregister
  unfold ApiRouterBuilder.registerProtected at hregister
  dsimp only at hregister
  split at hregister
  · cases hregister
  · rename_i router hrouter
    cases hregister
    obtain ⟨handler,hmem⟩ := h.registered
    refine ⟨⟨handler,?_⟩,?_⟩
    · rw [registerRoute_ok hrouter]
      exact List.mem_append_left _ hmem
    · intro hprotected
      rcases List.mem_append.mp hprotected with hold | hnew
      · exact h.unprotected hold
      · obtain ⟨rfl,rfl⟩ := ApiRouteDescriptor.mk.inj (List.mem_singleton.mp hnew)
        obtain ⟨-,hnew,-,-⟩ := @HttpRouter.registerRoute_inv _ _ _ ⟨.post,loginPath,_⟩ hrouter
        exact hnew (List.mem_map.mpr ⟨_,hmem,rfl⟩)

theorem registerAuthenticationApiRoutes_loginFirst {σ : Type} {builder builder' : ApiRouterBuilder σ}
    {handlers : AuthenticationHandlers σ} (hstart : builder.protectedRoutes = [])
    (hregister : registerAuthenticationApiRoutes builder (some handlers) = .ok builder') : LoginFirst builder' := by
  unfold registerAuthenticationApiRoutes ApiRouterBuilder.registerPublic at hregister
  dsimp only at hregister
  split at hregister
  · cases hregister
  · rename_i middle hmiddle
    split at hregister
    · cases hregister
    · rename_i last hlast
      cases hregister
      split at hmiddle
      · cases hmiddle
      · rename_i first hfirst
        cases hmiddle
        split at hlast
        · cases hlast
        · rename_i second hsecond
          cases hlast
          refine ⟨⟨fun request _ => handlers.login request,?_⟩,by simp [hstart]⟩
          rw [registerRoute_ok hsecond,registerRoute_ok hfirst]
          refine List.mem_append_left _ (List.mem_append_right _ ?_)
          exact List.mem_singleton.mpr rfl

/-- The body of a request to a protected route goes to a temporary file. -/
theorem selectsProtected_policy {σ : Type} {builder : ApiRouterBuilder σ} {head : HttpRequestHead}
    (h : LoginFirst builder) (hselects : SelectsProtected builder head) :
    authenticationBodyStoragePolicy head = {} := by
  unfold authenticationBodyStoragePolicy
  split
  · rename_i hlogin
    obtain ⟨route,hroute,hprotected⟩ := hselects
    obtain ⟨handler,hmem⟩ := h.registered
    rw [hlogin.1,hlogin.2] at hroute
    have haccepts := (HttpRouter.selectRoute_mem hroute).2
    obtain ⟨hexact,hpath⟩ := HttpRouter.selectRoute_exact hroute hmem rfl
      (by simp [HttpRouter.accepts,pathMatches])
    have hmethod : route.method = .post := by
      simp only [HttpRouter.accepts,Bool.and_eq_true,Bool.or_eq_true,decide_eq_true_eq] at haccepts
      rcases haccepts.1 with hpost | ⟨hhead,-⟩
      · exact hpost
      · cases hhead
    rw [routePattern,hexact,hmethod,if_neg (by decide),hpath] at hprotected
    exact absurd hprotected h.unprotected
  · rfl

/-- The session policy accepts the cookie of a request. -/
def SessionAccepted (env : Session.Environment) (sessions : SessionStore) (fields : List HttpHeaderView) : Prop :=
  ∃ value principal, sessionCookieCredential fields = ⟨value,false⟩ ∧ value ≠ [] ∧
    (sessions.authenticate env value).1 = .ok (some principal)

/-- The policy calls the next handler on accepted sessions, and on no others. -/
theorem sessionPolicy_accepts (env : Session.Environment) (date : Bytes) {sessions : SessionStore}
    {context : ApiRequestContext} {server : ServerState ρ} (hsessions : server.sessions = some sessions) :
    (SessionAccepted env sessions context.request.fields →
      ∃ principal server', ∀ next, makeSessionAuthenticationPolicy env date next context server =
        next { context with authenticatedPrincipal := some principal } server') ∧
    (¬SessionAccepted env sessions context.request.fields →
      ∀ next next', makeSessionAuthenticationPolicy env date next context server =
        makeSessionAuthenticationPolicy env date next' context server) := by
  unfold makeSessionAuthenticationPolicy
  rw [hsessions]
  dsimp only
  constructor
  · rintro ⟨value,principal,hcredential,hvalue,hauthenticate⟩
    rcases hcall : sessions.authenticate env value with ⟨result,after⟩
    rw [hcall] at hauthenticate
    dsimp only at hauthenticate
    subst hauthenticate
    refine ⟨principal,{ server with sessions := some after },fun next => ?_⟩
    rw [hcredential]
    simp [hvalue,hcall]
  · intro hrefused next next'
    split
    · rfl
    · rename_i hcredential
      rw [Bool.or_eq_true,not_or,Bool.not_eq_true,Bool.not_eq_true] at hcredential
      split
      · rfl
      · rfl
      · rename_i principal after hauthenticate
        refine absurd ⟨_,principal,?_,by simpa using hcredential.2,by rw [hauthenticate]⟩ hrefused
        rw [← hcredential.1]

/-- A request to a protected route, received in any fragments and with any storage, keeps out of
temporary files without an accepted session exactly as long as its storage gives no file to the
first payload of its body. -/
theorem body_persisted_only_if_accepted_iff (env : Session.Environment) (date : Bytes)
    (handlers : AuthenticationHandlers (ServerState ρ)) (locations : List (FilesystemApiLocation (ServerState ρ)))
    (builder : ApiRouterBuilder (ServerState ρ))
    (hbuilder : registerServerRoutes (sessionBuilder env date) (some handlers) locations = some builder)
    (limits : HttpRequestParserLimits) (storage : StorageEnvironment) (sessions : SessionStore)
    (fragments : List Bytes) (head : HttpRequestHead)
    (hhead : parseHttpRequestHead fragments.flatten limits = .ok (some head))
    (hselects : SelectsProtected builder head) :
    (createdTemporaryFile (requestAfter storage
        { limits := limits, storagePolicySelector := some authenticationBodyStoragePolicy } fragments) = true →
      SessionAccepted env sessions head.fields) ↔
      SessionAccepted env sessions head.fields ∨
        ∀ n, firstPayload (HttpBodyDecoder.create head limits) (bodyFragments limits [] fragments) = some n →
          ¬GivesFile storage 0 n := by
  have hlogin : LoginFirst builder := by
    unfold registerServerRoutes at hbuilder
    dsimp only at hbuilder
    split at hbuilder
    · cases hbuilder
    · rename_i middle hmiddle
      exact registerFilesystemApiRoutes_kept (fun location _ => registerProtected_loginFirst location)
        (registerAuthenticationApiRoutes_loginFirst rfl hmiddle) (toOption_ok hbuilder)
  have hcreated := @requestAfter_created storage limits head authenticationBodyStoragePolicy [] fragments hhead
    (selectsProtected_policy hlogin hselects)
  rw [hcreated]
  constructor
  · intro hproperty
    by_cases haccepted : SessionAccepted env sessions head.fields
    · exact Or.inl haccepted
    · exact Or.inr fun n hpayload hgives => haccepted (hproperty ⟨n,hpayload,hgives⟩)
  · rintro (haccepted | hnone) ⟨n,hpayload,hgives⟩
    · exact haccepted
    · exact absurd hgives (hnone n hpayload)

def noHandlers : AuthenticationHandlers (ServerState Unit) where
  login _ := pure (.error ⟨.handlerFailure,0⟩)
  logout _ := pure (.error ⟨.handlerFailure,0⟩)

theorem defaultPolicy_valid : ({} : SessionStorePolicy).Valid := by decide

def emptyStore : SessionStore := ⟨{},defaultPolicy_valid,[],wellFormed_nil _,0,0,0⟩

def filesBuilder : ApiRouterBuilder (ServerState Unit) :=
  (registerServerRoutes (sessionBuilder emptyEnvironment []) (some noHandlers) [filesLocation]).getD
    (sessionBuilder emptyEnvironment [])

theorem filesBuilder_eq : registerServerRoutes (sessionBuilder emptyEnvironment []) (some noHandlers)
    [filesLocation] = some filesBuilder := by
  obtain ⟨builder,hbuilder⟩ : ∃ builder, registerServerRoutes (sessionBuilder emptyEnvironment [])
      (some noHandlers) [filesLocation] = some builder :=
    Option.isSome_iff_exists.mp (by decide +kernel)
  rw [filesBuilder,hbuilder]
  rfl

theorem body_persisted_only_if_accepted_iff_listing :
    (createdTemporaryFile (requestAfter .reliable
        { limits := {}, storagePolicySelector := some authenticationBodyStoragePolicy }
        [ascii "GET /files HTTP/1.1\r\n",ascii "Host: h\r\n\r\n"]) = true →
      SessionAccepted emptyEnvironment emptyStore [⟨ascii "Host",ascii "h"⟩]) ↔
    SessionAccepted emptyEnvironment emptyStore [⟨ascii "Host",ascii "h"⟩] ∨
      ∀ n, firstPayload (HttpBodyDecoder.create ⟨.get,ascii "/files",[⟨ascii "Host",ascii "h"⟩],32,0,false⟩ {})
          (bodyFragments {} [] [ascii "GET /files HTTP/1.1\r\n",ascii "Host: h\r\n\r\n"]) = some n →
        ¬GivesFile .reliable 0 n :=
  body_persisted_only_if_accepted_iff emptyEnvironment [] noHandlers [filesLocation] filesBuilder filesBuilder_eq {}
    .reliable emptyStore [ascii "GET /files HTTP/1.1\r\n",ascii "Host: h\r\n\r\n"]
    ⟨.get,ascii "/files",[⟨ascii "Host",ascii "h"⟩],32,0,false⟩ (by decide +kernel)
    (selectsProtected_of_any (by decide +kernel))

/-- An upload without a cookie is in a temporary file before the policy answers it with 401. -/
theorem anonymous_upload_persisted :
    SelectsProtected filesBuilder ⟨.put,ascii "/files/a",
      [⟨ascii "Host",ascii "h"⟩,⟨ascii "Content-Length",ascii "3"⟩],53,3,false⟩ ∧
    ¬SessionAccepted emptyEnvironment emptyStore
      [⟨ascii "Host",ascii "h"⟩,⟨ascii "Content-Length",ascii "3"⟩] ∧
    createdTemporaryFile (requestAfter .reliable
      { limits := {}, storagePolicySelector := some authenticationBodyStoragePolicy }
      [ascii "PUT /files/a HTTP/1.1\r\nHost: h\r\nContent-Length: 3\r\n\r\nabc"]) = true ∧
    (filesBuilder.build.dispatch [] ⟨⟨.put,ascii "/files/a",
        [⟨ascii "Host",ascii "h"⟩,⟨ascii "Content-Length",ascii "3"⟩],ascii "abc"⟩,plainTransport⟩
      ⟨some emptyStore,()⟩).1.map HttpResponse.statusCode = .ok .unauthorized := by
  refine ⟨selectsProtected_of_any (by decide +kernel),?_,by decide +kernel,by decide +kernel⟩
  rintro ⟨value,principal,hcredential,hvalue,-⟩
  have hnone : sessionCookieCredential [⟨ascii "Host",ascii "h"⟩,⟨ascii "Content-Length",ascii "3"⟩] = {} := by
    decide
  rw [hnone] at hcredential
  cases hcredential
  exact hvalue rfl

end SpareNode.Authentication
