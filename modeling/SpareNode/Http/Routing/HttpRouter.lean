import SpareNode.Http.Response.HttpResponse
import SpareNode.Http.Transport.TransportPolicy

/-! # The router

A bounded table of exact and terminal-wildcard routes. Exact routes come before wildcards and a
long wildcard before a short one; HEAD falls back to GET. What a handler reads and changes is
the state of a `StateM`.
-/
namespace SpareNode.Http

inductive HttpRouteErrorCode where
  | handlerFailure | responseValidationFailure
deriving DecidableEq, Repr

structure HttpRouteError where
  code : HttpRouteErrorCode
  detail : ℤ
deriving DecidableEq, Repr

inductive HttpRouteRegistrationErrorCode where
  | invalidMethod | invalidPattern | duplicateRoute | emptyHandler | tooManyRoutes
deriving DecidableEq, Repr

structure HttpRouteParameters where
  wildcardSuffix : Bytes
deriving DecidableEq, Repr

/-- A request with the transport that the connection handler has resolved for it. -/
structure RoutedRequest extends HttpRequestView where
  transport : HttpRequestTransportContext
deriving DecidableEq, Repr

/-- `Result<HttpResponse, HttpRouteError>`. -/
abbrev RouteResult := Except HttpRouteError HttpResponse

abbrev HttpRouteHandler (σ : Type) := RoutedRequest → HttpRouteParameters → StateM σ RouteResult

def isRoutePathCharacter (b : Byte) : Bool :=
  isAsciiDigit b || isAsciiLetter b || (ascii "-._~!$&'()+,;=:@").contains b

/-- The loop of `is_valid_pattern` over the path before a wildcard. -/
def isValidRoutePath : Bytes → Bool
  | [] => true
  | b :: rest =>
    if b = char '/' then isValidRoutePath rest
    else if b = char '%' then
      match rest with
      | high :: low :: rest =>
        isAsciiHexadecimalDigit high && isAsciiHexadecimalDigit low && isValidRoutePath rest
      | _ => false
    else isRoutePathCharacter b && isValidRoutePath rest

def isValidPattern (pattern : Bytes) : Bool :=
  if pattern.head? ≠ some (char '/') ∨ char '?' ∈ pattern ∨ char '#' ∈ pattern then false
  else
    match find (char '*') pattern with
    | none => isValidRoutePath pattern
    | some wildcard =>
      if wildcard ≠ pattern.length - 1 ∨ wildcard = 0 ∨ pattern[wildcard - 1]? ≠ some (char '/') then false
      else isValidRoutePath (pattern.take wildcard)

def requestPath (target : Bytes) : Bytes := target.takeWhile (· ≠ char '?')

def pathMatches (wildcard : Bool) (pathPrefix path : Bytes) : Bool :=
  if wildcard then pathPrefix.isPrefixOf path else path = pathPrefix

def capturedSuffix (wildcard : Bool) (pathPrefix path : Bytes) : Bytes :=
  if wildcard then path.drop pathPrefix.length else []

def isMoreSpecific (candidateWildcard : Bool) (candidatePrefixSize : ℕ) (currentWildcard : Bool)
    (currentPrefixSize : ℕ) : Bool :=
  if candidateWildcard ≠ currentWildcard then !candidateWildcard
  else currentPrefixSize < candidatePrefixSize

/-- `HttpRouter::Route` with a handler of some type. -/
structure Route (H : Type) where
  method : HttpMethod
  pathPrefix : Bytes
  wildcard : Bool
  handler : H

structure HttpRouter (H : Type) where
  routes : List (Route H) := []

namespace HttpRouter
variable {H : Type}

def maximumRouteCount : ℕ := 128

/-- `HttpRouter::register_route`; every method is in range, and no handler stands for an empty
callable. -/
def registerRoute (router : HttpRouter H) (method : HttpMethod) (pattern : Bytes) (handler : Option H) :
    Except HttpRouteRegistrationErrorCode (HttpRouter H) :=
  if !isValidPattern pattern then .error .invalidPattern
  else
    match handler with
    | none => .error .emptyHandler
    | some handler =>
      let wildcard := (ascii "/*").isSuffixOf pattern
      let pathPrefix := if wildcard then pattern.dropLast else pattern
      if router.routes.any (fun route => route.method = method && route.wildcard = wildcard &&
          route.pathPrefix = pathPrefix) then .error .duplicateRoute
      else if maximumRouteCount ≤ router.routes.length then .error .tooManyRoutes
      else .ok ⟨router.routes ++ [⟨method,pathPrefix,wildcard,handler⟩]⟩

/-- Whether a route answers a method on a path. -/
def accepts (method : HttpMethod) (path : Bytes) (route : Route H) : Bool :=
  (route.method = method || (method = .head && route.method = .get)) &&
    pathMatches route.wildcard route.pathPrefix path

/-- One round of the loop of `select_route`. -/
def selectStep (method : HttpMethod) (path : Bytes) (selected : Option (Route H)) (route : Route H) :
    Option (Route H) :=
  if !accepts method path route then selected
  else
    match selected with
    | none => some route
    | some current =>
      let explicitHeadTie := route.method = .head && current.method = .get &&
        route.wildcard = current.wildcard && route.pathPrefix.length = current.pathPrefix.length
      if explicitHeadTie || isMoreSpecific route.wildcard route.pathPrefix.length current.wildcard
          current.pathPrefix.length then some route
      else some current

def selectRoute (router : HttpRouter H) (method : HttpMethod) (path : Bytes) : Option (Route H) :=
  router.routes.foldl (selectStep method path) none

def makeRoutingResponse (date : Bytes) (status : HttpStatusCode) (headers : List HttpResponseHeader) :
    RouteResult :=
  match HttpResponse.create date status (httpReasonPhrase status) headers [] with
  | .error _ => .error ⟨.responseValidationFailure,0⟩
  | .ok response => .ok response

def methods : List HttpMethod := [.get,.head,.post,.put,.deleteMethod,.options]

/-- What the second loop of `dispatch` finds on a path: whether a route matches at all, and the
methods of those that do. -/
structure PathMethods where
  pathExists : Bool := false
  allowed : HttpMethod → Bool := fun _ => false

/-- One round of the second loop; GET brings HEAD along. -/
def PathMethods.visit (path : Bytes) (found : PathMethods) (route : Route H) : PathMethods :=
  if pathMatches route.wildcard route.pathPrefix path then
    let allowed := Function.update found.allowed route.method true
    { pathExists := true
      allowed := if route.method = .get then Function.update allowed .head true else allowed }
  else found

def pathMethods (router : HttpRouter H) (path : Bytes) : PathMethods :=
  router.routes.foldl (PathMethods.visit path) {}

/-- One round of the loop that writes the allowed methods by their index. -/
def appendAllowed (allowed : HttpMethod → Bool) (allow : Bytes) (method : HttpMethod) : Bytes :=
  if !allowed method then allow
  else (if allow.isEmpty then allow else allow ++ ascii ", ") ++ method.spelling

def allowHeader (allowed : HttpMethod → Bool) : HttpResponseHeader :=
  ⟨ascii "Allow",methods.foldl (appendAllowed allowed) []⟩

def dispatch {σ : Type} (date : Bytes) (router : HttpRouter (HttpRouteHandler σ)) (request : RoutedRequest) :
    StateM σ RouteResult :=
  if request.method = .options ∧ request.target = ascii "*" then
    pure (makeRoutingResponse date .noContent [])
  else
    let path := requestPath request.target
    match router.selectRoute request.method path with
    | some selected =>
      selected.handler request ⟨capturedSuffix selected.wildcard selected.pathPrefix path⟩
    | none =>
      let found := router.pathMethods path
      if !found.pathExists then pure (makeRoutingResponse date .notFound [])
      else pure (makeRoutingResponse date .methodNotAllowed [allowHeader found.allowed])

variable {method : HttpMethod} {path : Bytes} {routes : List (Route H)}

/-- What the loop knows of the routes that it has seen. -/
def Best (method : HttpMethod) (path : Bytes) (seen : List (Route H)) : Option (Route H) → Prop
  | none => ∀ route ∈ seen, accepts method path route = false
  | some current => current ∈ seen ∧ accepts method path current = true ∧
      ∀ route ∈ seen, accepts method path route = true →
        isMoreSpecific route.wildcard route.pathPrefix.length current.wildcard current.pathPrefix.length = false

theorem isMoreSpecific_trans_false {w w' w'' : Bool} {n n' n'' : ℕ} (h : isMoreSpecific w n w' n' = false)
    (h' : isMoreSpecific w'' n'' w' n' = true ∨ w'' = w' ∧ n'' = n') : isMoreSpecific w n w'' n'' = false := by
  unfold isMoreSpecific at *
  cases w <;> cases w' <;> cases w'' <;> simp at * <;> omega

theorem isMoreSpecific_self (w : Bool) (n : ℕ) : isMoreSpecific w n w n = false := by
  simp [isMoreSpecific]

theorem selectStep_best {seen : List (Route H)} {selected : Option (Route H)} {route : Route H}
    (h : Best method path seen selected) :
    Best method path (seen ++ [route]) (selectStep method path selected route) := by
  unfold selectStep
  split
  · rename_i hrefused
    rw [Bool.not_eq_true'] at hrefused
    cases selected with
    | none =>
      intro other hother
      rcases List.mem_append.mp hother with hold | hnew
      · exact h other hold
      · rwa [List.mem_singleton.mp hnew]
    | some current =>
      refine ⟨List.mem_append_left _ h.1,h.2.1,?_⟩
      intro other hother haccepts
      rcases List.mem_append.mp hother with hold | hnew
      · exact h.2.2 other hold haccepts
      · rw [List.mem_singleton.mp hnew,hrefused] at haccepts
        cases haccepts
  · rename_i haccepted
    rw [Bool.not_eq_true',Bool.not_eq_false] at haccepted
    have hlast : route ∈ seen ++ [route] := List.mem_append_right _ (List.mem_singleton.mpr rfl)
    cases selected with
    | none =>
      refine ⟨hlast,haccepted,?_⟩
      intro other hother haccepts
      rcases List.mem_append.mp hother with hold | hnew
      · rw [h other hold] at haccepts
        cases haccepts
      · rw [List.mem_singleton.mp hnew]
        exact isMoreSpecific_self _ _
    | some current =>
      obtain ⟨hseen,hcurrent,hbest⟩ := h
      dsimp only
      split
      · rename_i hreplaced
        have hrank : isMoreSpecific route.wildcard route.pathPrefix.length current.wildcard
            current.pathPrefix.length = true ∨
            route.wildcard = current.wildcard ∧ route.pathPrefix.length = current.pathPrefix.length := by
          simp only [Bool.or_eq_true,Bool.and_eq_true,decide_eq_true_eq] at hreplaced
          rcases hreplaced with ⟨⟨-,hwildcard⟩,hsize⟩ | hmore
          · exact Or.inr ⟨hwildcard,hsize⟩
          · exact Or.inl hmore
        refine ⟨hlast,haccepted,?_⟩
        intro other hother haccepts
        rcases List.mem_append.mp hother with hold | hnew
        · exact isMoreSpecific_trans_false (hbest other hold haccepts) hrank
        · rw [List.mem_singleton.mp hnew]
          exact isMoreSpecific_self _ _
      · rename_i hkept
        rw [Bool.or_eq_true,not_or,Bool.not_eq_true,Bool.not_eq_true] at hkept
        refine ⟨List.mem_append_left _ hseen,hcurrent,?_⟩
        intro other hother haccepts
        rcases List.mem_append.mp hother with hold | hnew
        · exact hbest other hold haccepts
        · rw [List.mem_singleton.mp hnew]
          exact hkept.2

/-- The selected route is one of the table's, answers the request and is beaten by none. -/
theorem selectRoute_best (router : HttpRouter H) (method : HttpMethod) (path : Bytes) :
    Best method path router.routes (router.selectRoute method path) := by
  have hfold (seen routes : List (Route H)) (selected : Option (Route H)) (h : Best method path seen selected) :
      Best method path (seen ++ routes) (routes.foldl (selectStep method path) selected) := by
    induction routes generalizing seen selected with
    | nil => simpa using h
    | cons route routes ih =>
      have hnext := ih (seen ++ [route]) _ (selectStep_best h)
      rwa [List.append_assoc] at hnext
  exact hfold [] router.routes none (fun route hroute => nomatch hroute)

theorem selectRoute_mem {router : HttpRouter H} {route : Route H}
    (h : router.selectRoute method path = some route) :
    route ∈ router.routes ∧ accepts method path route = true := by
  have hbest := selectRoute_best router method path
  rw [h] at hbest
  exact ⟨hbest.1,hbest.2.1⟩

/-- An exact route that answers the request lets no wildcard come before it. -/
theorem selectRoute_exact {router : HttpRouter H} {route other : Route H}
    (h : router.selectRoute method path = some route) (hother : other ∈ router.routes)
    (hexact : other.wildcard = false) (haccepts : accepts method path other = true) :
    route.wildcard = false ∧ route.pathPrefix = path := by
  have hbest := selectRoute_best router method path
  rw [h] at hbest
  obtain ⟨-,hroute,hnone⟩ := hbest
  have hkind : route.wildcard = false := by
    by_contra hwildcard
    have hrank := hnone other hother haccepts
    rw [Bool.not_eq_false] at hwildcard
    simp [isMoreSpecific,hexact,hwildcard] at hrank
  refine ⟨hkind,?_⟩
  simp only [accepts,hkind,pathMatches,Bool.and_eq_true] at hroute
  have hpath : path = route.pathPrefix := by simpa using hroute.2
  exact hpath.symm

end HttpRouter
end SpareNode.Http
