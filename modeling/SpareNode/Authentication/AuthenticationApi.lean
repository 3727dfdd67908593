import SpareNode.Authentication.SessionAuthenticationPolicy
import SpareNode.Http.Transport.RequestBodyIngestor

/-! # The authentication routes

Two public endpoints, and the choice of where the body of a request is stored. What the two
handlers do is an argument.
-/
namespace SpareNode.Authentication
open Http Http.Api
variable {σ : Type}

def loginPath : Bytes := ascii "/api/auth/login"
def logoutPath : Bytes := ascii "/api/auth/logout"
def maximumLoginBodyBytes : ℕ := 4096

/-- The handlers `login` and `logout` over their service. -/
structure AuthenticationHandlers (σ : Type) where
  login : RoutedRequest → StateM σ RouteResult
  logout : RoutedRequest → StateM σ RouteResult

inductive AuthenticationApiErrorCode where
  | missingService | routeRegistrationFailed
deriving DecidableEq, Repr

structure AuthenticationApiError where
  code : AuthenticationApiErrorCode
  routeError : HttpRouteRegistrationErrorCode := .invalidMethod
deriving DecidableEq, Repr

/-- The cookie of a session, which the host alone gets back. -/
def sessionCookie (credential : Bytes) (secure : Bool) : Bytes :=
  sessionCookieName ++ char '=' :: credential ++ ascii "; Path=/; HttpOnly; SameSite=Strict" ++
    if secure then ascii "; Secure" else []

/-- `register_authentication_api_routes`; no handlers stand for a null service. -/
def registerAuthenticationApiRoutes (builder : ApiRouterBuilder σ)
    (service : Option (AuthenticationHandlers σ)) : Except AuthenticationApiError (ApiRouterBuilder σ) :=
  match service with
  | none => .error { code := .missingService }
  | some service =>
    match builder.registerPublic ⟨.post,loginPath,fun request _ => service.login request⟩ with
    | .error e => .error ⟨.routeRegistrationFailed,e⟩
    | .ok builder =>
      match builder.registerPublic ⟨.post,logoutPath,fun request _ => service.logout request⟩ with
      | .error e => .error ⟨.routeRegistrationFailed,e⟩
      | .ok builder => .ok builder

def authenticationBodyStoragePolicy (head : HttpRequestHead) : RequestBodyStoragePolicy :=
  if head.method = .post ∧ requestPath head.target = loginPath then
    { mode := .memory, maxBodyBytes := maximumLoginBodyBytes }
  else {}

end SpareNode.Authentication
