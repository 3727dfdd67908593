import SpareNode.Http.Routing.HttpRouter
import SpareNode.Session.SessionStore

/-! # Public and protected routes

A builder registers a public route as it is and a protected one behind its decorator. The
decorator of the server wraps a handler in up to six policies, the last of them innermost, so
that they run in one fixed order before the handler.
-/
namespace SpareNode.Http.Api
open Session
variable {σ : Type}

/-- What a policy sees: the request, its route parameters and who has been authenticated. -/
structure ApiRequestContext where
  request : RoutedRequest
  parameters : HttpRouteParameters
  authenticatedPrincipal : Option Principal := none

abbrev ApiRequestHandler (σ : Type) := ApiRequestContext → StateM σ RouteResult

abbrev ApiRequestDecorator (σ : Type) := ApiRequestHandler σ → ApiRequestHandler σ

abbrev ProtectedRouteDecorator (σ : Type) := HttpRouteHandler σ → HttpRouteHandler σ

/-- `ProtectedRoutePolicies`: no decorator stands for an empty callable. -/
structure ProtectedRoutePolicies (σ : Type) where
  transport : Option (ApiRequestDecorator σ) := none
  sessionAuthentication : Option (ApiRequestDecorator σ) := none
  originCsrf : Option (ApiRequestDecorator σ) := none
  authorization : Option (ApiRequestDecorator σ) := none
  throttling : Option (ApiRequestDecorator σ) := none
  resourceCoordination : Option (ApiRequestDecorator σ) := none

def ProtectedRoutePolicies.slots (policies : ProtectedRoutePolicies σ) : List (Option (ApiRequestDecorator σ)) :=
  [policies.transport,policies.sessionAuthentication,policies.originCsrf,policies.authorization,
    policies.throttling,policies.resourceCoordination]

/-- The loop of `decorate`, from the last slot to the first. -/
def decorateWith (slots : List (Option (ApiRequestDecorator σ))) (handler : ApiRequestHandler σ) :
    ApiRequestHandler σ :=
  slots.reverse.foldl (fun decorated policy =>
    match policy with
    | some policy => policy decorated
    | none => decorated) handler

def makeProtectedRouteDecorator (policies : ProtectedRoutePolicies σ) : ProtectedRouteDecorator σ :=
  fun handler request parameters =>
    decorateWith policies.slots (fun context => handler context.request context.parameters)
      { request := request, parameters := parameters }

structure ApiRouteDescriptor where
  method : HttpMethod
  pattern : Bytes
deriving DecidableEq, Repr

/-- `PublicApiRoute` and `ProtectedApiRoute`; their handlers are never empty callables. -/
structure ApiRoute (σ : Type) where
  method : HttpMethod
  pattern : Bytes
  handler : HttpRouteHandler σ

structure ApiRouterBuilder (σ : Type) where
  router : HttpRouter (HttpRouteHandler σ) := {}
  protectedRouteDecorator : Option (ProtectedRouteDecorator σ)
  publicRoutes : List ApiRouteDescriptor := []
  protectedRoutes : List ApiRouteDescriptor := []

namespace ApiRouterBuilder

def registerPublic (builder : ApiRouterBuilder σ) (route : ApiRoute σ) :
    Except HttpRouteRegistrationErrorCode (ApiRouterBuilder σ) :=
  match builder.router.registerRoute route.method route.pattern (some route.handler) with
  | .error e => .error e
  | .ok router => .ok { builder with
      router := router
      publicRoutes := builder.publicRoutes ++ [⟨route.method,route.pattern⟩] }

def registerProtected (builder : ApiRouterBuilder σ) (route : ApiRoute σ) :
    Except HttpRouteRegistrationErrorCode (ApiRouterBuilder σ) :=
  let handler := match builder.protectedRouteDecorator with
    | some decorate => decorate route.handler
    | none => route.handler
  match builder.router.registerRoute route.method route.pattern (some handler) with
  | .error e => .error e
  | .ok router => .ok { builder with
      router := router
      protectedRoutes := builder.protectedRoutes ++ [⟨route.method,route.pattern⟩] }

def build (builder : ApiRouterBuilder σ) : HttpRouter (HttpRouteHandler σ) := builder.router

end ApiRouterBuilder

def makeJsonResponse (date : Bytes) (status : HttpStatusCode) (body : String)
    (additionalHeaders : List HttpResponseHeader) : RouteResult :=
  let others := additionalHeaders.filter
    (fun header => !asciiCaseInsensitiveEqual header.name (ascii "Content-Type"))
  let contentType : HttpResponseHeader := ⟨ascii "Content-Type",ascii "application/json; charset=utf-8"⟩
  match HttpResponse.create date status (httpReasonPhrase status) (contentType :: others) (ascii body) with
  | .error e => .error ⟨.responseValidationFailure,e.code.value⟩
  | .ok response => .ok response

end SpareNode.Http.Api
