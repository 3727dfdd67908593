import SpareNode.Authentication.ProtectedRoutes
import SpareNode.Http.Routing.RouteRegistration

/-! # The routes of a server as a table

The builder asks its router for the two authentication routes and for eight routes of every location, one
call after the other. What the calls ask for is a list that is known before the first of them.
-/
namespace SpareNode.Application
open Http Http.Api Authentication
variable {σ : Type}

/-- The handler that a protected route is stored with. -/
def protect (decorator : Option (ProtectedRouteDecorator σ)) (handler : HttpRouteHandler σ) : HttpRouteHandler σ :=
  match decorator with
  | some decorate => decorate handler
  | none => handler

def operations : List FilesystemOperation := [.resource,.upload,.directoryCreation,.deletion]

def operationMethod : FilesystemOperation → HttpMethod
  | .resource => .get
  | .upload => .put
  | .directoryCreation => .post
  | .deletion => .deleteMethod

def exactHandler (location : FilesystemApiLocation σ) (operation : FilesystemOperation) : HttpRouteHandler σ :=
  fun request _ => location.handle operation request []

def nestedHandler (location : FilesystemApiLocation σ) (operation : FilesystemOperation) : HttpRouteHandler σ :=
  fun request parameters => location.handle operation request parameters.wildcardSuffix

def operationRegistrations (decorator : Option (ProtectedRouteDecorator σ)) (location : FilesystemApiLocation σ)
    (operation : FilesystemOperation) : List (Registration (HttpRouteHandler σ)) :=
  [⟨operationMethod operation,location.apiPath,protect decorator (exactHandler location operation)⟩,
    ⟨operationMethod operation,nestedPath location.apiPath,protect decorator (nestedHandler location operation)⟩]

def locationRegistrations (decorator : Option (ProtectedRouteDecorator σ)) (location : FilesystemApiLocation σ) :
    List (Registration (HttpRouteHandler σ)) :=
  operations.flatMap (operationRegistrations decorator location)

def authenticationRegistrations (handlers : AuthenticationHandlers σ) : List (Registration (HttpRouteHandler σ)) :=
  [⟨.post,loginPath,fun request _ => handlers.login request⟩,
    ⟨.post,logoutPath,fun request _ => handlers.logout request⟩]

def serverRegistrations (decorator : Option (ProtectedRouteDecorator σ)) (handlers : AuthenticationHandlers σ)
    (locations : List (FilesystemApiLocation σ)) : List (Registration (HttpRouteHandler σ)) :=
  authenticationRegistrations handlers ++ locations.flatMap (locationRegistrations decorator)

/-- A step of the builder asks its router for some routes and leaves the decorator alone. -/
structure Asks (builder : ApiRouterBuilder σ) (result : Option (ApiRouterBuilder σ))
    (order : List (Registration (HttpRouteHandler σ))) : Prop where
  router : result.map (·.router) = (builder.router.registerAll order).toOption
  decorator : ∀ builder', result = some builder' → builder'.protectedRouteDecorator = builder.protectedRouteDecorator

variable {builder : ApiRouterBuilder σ}

theorem Asks.nil : Asks builder (some builder) [] :=
  ⟨rfl,fun _ h => congrArg _ (Option.some.inj h).symm⟩

/-- Steps that follow one another ask for their routes one after the other. -/
theorem Asks.andThen {first : Option (ApiRouterBuilder σ)} {next : ApiRouterBuilder σ → Option (ApiRouterBuilder σ)}
    {order more : List (Registration (HttpRouteHandler σ))} (h : Asks builder first order)
    (hnext : ∀ middle, middle.protectedRouteDecorator = builder.protectedRouteDecorator →
      Asks middle (next middle) more) :
    Asks builder (first.bind next) (order ++ more) := by
  obtain ⟨hrouter,hdecorator⟩ := h
  cases first with
  | none =>
    refine ⟨?_,nofun⟩
    rw [HttpRouter.registerAll_append]
    cases hfirst : builder.router.registerAll order with
    | error e => rfl
    | ok router =>
      rw [hfirst] at hrouter
      cases hrouter
  | some middle =>
    have hmiddle := hnext middle (hdecorator middle rfl)
    constructor
    · rw [HttpRouter.registerAll_append]
      cases hfirst : builder.router.registerAll order with
      | error e =>
        rw [hfirst] at hrouter
        cases hrouter
      | ok router =>
        rw [hfirst] at hrouter
        obtain rfl : middle.router = router := Option.some.inj hrouter
        exact hmiddle.router
    · intro last hlast
      exact (hmiddle.decorator last hlast).trans (hdecorator middle rfl)

theorem registerAll_singleton (router : HttpRouter (HttpRouteHandler σ))
    (entry : Registration (HttpRouteHandler σ)) :
    router.registerAll [entry] = router.registerRoute entry.method entry.pattern (some entry.handler) := by
  rw [HttpRouter.registerAll,List.foldlM_cons]
  cases router.registerRoute entry.method entry.pattern (some entry.handler) <;> rfl

/-- One registration that keeps the decorator asks for one route. -/
theorem Asks.single (entry : Registration (HttpRouteHandler σ))
    (extend : HttpRouter (HttpRouteHandler σ) → ApiRouterBuilder σ) (hrouter : ∀ router, (extend router).router = router)
    (hdecorator : ∀ router, (extend router).protectedRouteDecorator = builder.protectedRouteDecorator) :
    Asks builder ((builder.router.registerRoute entry.method entry.pattern (some entry.handler)).toOption.map extend)
      [entry] := by
  constructor
  · rw [registerAll_singleton]
    cases builder.router.registerRoute entry.method entry.pattern (some entry.handler) with
    | error e => rfl
    | ok router => exact congrArg some (hrouter router)
  · intro builder' h
    obtain ⟨router,-,rfl⟩ := Option.map_eq_some_iff.mp h
    exact hdecorator router

theorem registerPublic_asks (route : ApiRoute σ) :
    Asks builder (builder.registerPublic route).toOption [⟨route.method,route.pattern,route.handler⟩] := by
  have hextend : (builder.registerPublic route).toOption =
      (builder.router.registerRoute route.method route.pattern (some route.handler)).toOption.map fun router =>
        { builder with
          router := router
          publicRoutes := builder.publicRoutes ++ [⟨route.method,route.pattern⟩] } := by
    unfold ApiRouterBuilder.registerPublic
    cases builder.router.registerRoute route.method route.pattern (some route.handler) <;> rfl
  rw [hextend]
  exact Asks.single ⟨route.method,route.pattern,route.handler⟩ _ (fun _ => rfl) fun _ => rfl

theorem registerProtected_asks (route : ApiRoute σ) :
    Asks builder (builder.registerProtected route).toOption
      [⟨route.method,route.pattern,protect builder.protectedRouteDecorator route.handler⟩] := by
  have hextend : (builder.registerProtected route).toOption =
      (builder.router.registerRoute route.method route.pattern
        (some (protect builder.protectedRouteDecorator route.handler))).toOption.map fun router =>
        { builder with
          router := router
          protectedRoutes := builder.protectedRoutes ++ [⟨route.method,route.pattern⟩] } := by
    unfold ApiRouterBuilder.registerProtected protect
    cases builder.protectedRouteDecorator with
    | none =>
      dsimp only
      cases builder.router.registerRoute route.method route.pattern (some route.handler) <;> rfl
    | some decorate =>
      dsimp only
      cases builder.router.registerRoute route.method route.pattern (some (decorate route.handler)) <;> rfl
  rw [hextend]
  exact Asks.single ⟨route.method,route.pattern,protect builder.protectedRouteDecorator route.handler⟩ _
    (fun _ => rfl) fun _ => rfl

theorem toOption_bind {ε α β : Type} (x : Except ε α) (f : α → Except ε β) :
    (x >>= f).toOption = x.toOption.bind fun a => (f a).toOption := by
  cases x <;> rfl

theorem registerOperationRoutes_asks (location : FilesystemApiLocation σ) (operation : FilesystemOperation) :
    Asks builder (registerOperationRoutes builder location (operationMethod operation) operation).toOption
      (operationRegistrations builder.protectedRouteDecorator location operation) := by
  have hexact : Asks builder _ _ := registerProtected_asks
    ⟨operationMethod operation,location.apiPath,exactHandler location operation⟩
  have hnested (middle : ApiRouterBuilder σ)
      (hmiddle : middle.protectedRouteDecorator = builder.protectedRouteDecorator) :
      Asks middle (middle.registerProtected
        ⟨operationMethod operation,nestedPath location.apiPath,nestedHandler location operation⟩).toOption
        [⟨operationMethod operation,nestedPath location.apiPath,
          protect builder.protectedRouteDecorator (nestedHandler location operation)⟩] := by
    rw [← hmiddle]
    exact registerProtected_asks _
  have hpair : registerOperationRoutes builder location (operationMethod operation) operation =
      builder.registerProtected ⟨operationMethod operation,location.apiPath,exactHandler location operation⟩ >>=
        fun middle => middle.registerProtected
          ⟨operationMethod operation,nestedPath location.apiPath,nestedHandler location operation⟩ := by
    unfold registerOperationRoutes registerLocationRoutes exactHandler nestedHandler
    cases builder.registerProtected ⟨operationMethod operation,location.apiPath,
      fun request _ => location.handle operation request []⟩ <;> rfl
  rw [hpair,toOption_bind]
  exact hexact.andThen hnested

theorem registerLocation_asks (location : FilesystemApiLocation σ) :
    Asks builder (registerLocation builder location).toOption
      (locationRegistrations builder.protectedRouteDecorator location) := by
  have hnext (operation : FilesystemOperation) (middle : ApiRouterBuilder σ)
      (hmiddle : middle.protectedRouteDecorator = builder.protectedRouteDecorator) :
      Asks middle (registerOperationRoutes middle location (operationMethod operation) operation).toOption
        (operationRegistrations builder.protectedRouteDecorator location operation) :=
    hmiddle ▸ registerOperationRoutes_asks location operation
  have hall := (((hnext .resource builder rfl).andThen (hnext .upload)).andThen (hnext .directoryCreation)).andThen
    (hnext .deletion)
  simp only [← toOption_bind,bind_assoc,List.append_assoc] at hall
  unfold registerLocation
  simp only [locationRegistrations,operations,List.flatMap_cons,List.flatMap_nil,List.append_nil]
  exact hall

theorem registerLocations_asks (locations : List (FilesystemApiLocation σ)) :
    Asks builder (registerLocations builder locations).toOption
      (locations.flatMap (locationRegistrations builder.protectedRouteDecorator)) := by
  induction locations generalizing builder with
  | nil => exact Asks.nil
  | cons location locations ih =>
    have hmore (middle : ApiRouterBuilder σ)
        (hmiddle : middle.protectedRouteDecorator = builder.protectedRouteDecorator) :
        Asks middle (registerLocations middle locations).toOption
          (locations.flatMap (locationRegistrations builder.protectedRouteDecorator)) := hmiddle ▸ ih
    have hrest := (registerLocation_asks location).andThen hmore
    have hcons : (registerLocations builder (location :: locations)).toOption =
        (registerLocation builder location).toOption.bind
          fun middle => (registerLocations middle locations).toOption := by
      rw [registerLocations]
      cases registerLocation builder location <;> rfl
    rw [hcons,List.flatMap_cons]
    exact hrest

theorem registerAuthenticationApiRoutes_asks (handlers : AuthenticationHandlers σ) :
    Asks builder (registerAuthenticationApiRoutes builder (some handlers)).toOption
      (authenticationRegistrations handlers) := by
  unfold registerAuthenticationApiRoutes
  dsimp only
  -- the two routes are opaque from here on
  generalize hlogin : (⟨.post,loginPath,fun request _ => handlers.login request⟩ : ApiRoute σ) = login
  generalize hlogout : (⟨.post,logoutPath,fun request _ => handlers.logout request⟩ : ApiRoute σ) = logout
  have horder : authenticationRegistrations handlers =
      [⟨login.method,login.pattern,login.handler⟩,⟨logout.method,logout.pattern,logout.handler⟩] := by
    rw [← hlogin,← hlogout,authenticationRegistrations]
  have hsecond (middle : ApiRouterBuilder σ)
      (_ : middle.protectedRouteDecorator = builder.protectedRouteDecorator) :
      Asks middle (middle.registerPublic logout).toOption [⟨logout.method,logout.pattern,logout.handler⟩] :=
    registerPublic_asks logout
  have hboth := (registerPublic_asks login).andThen hsecond
  rw [horder]
  cases hfirst : builder.registerPublic login with
  | error e =>
    rw [hfirst] at hboth
    exact hboth
  | ok middle =>
    rw [hfirst] at hboth
    dsimp only [Except.toOption,Option.bind_some] at hboth ⊢
    cases hsecond : middle.registerPublic logout with
    | error e =>
      rw [hsecond] at hboth
      exact hboth
    | ok last =>
      rw [hsecond] at hboth
      exact hboth

/-- Registering the routes of a server is registering the table call by call. -/
theorem registerServerRoutes_asks (handlers : AuthenticationHandlers σ) {locations : List (FilesystemApiLocation σ)}
    (h : locations ≠ []) :
    Asks builder (registerServerRoutes builder (some handlers) locations)
      (serverRegistrations builder.protectedRouteDecorator handlers locations) := by
  have hlocations (middle : ApiRouterBuilder σ)
      (hmiddle : middle.protectedRouteDecorator = builder.protectedRouteDecorator) :
      Asks middle (registerLocations middle locations).toOption
        (locations.flatMap (locationRegistrations builder.protectedRouteDecorator)) :=
    hmiddle ▸ registerLocations_asks locations
  have hboth := (registerAuthenticationApiRoutes_asks handlers).andThen hlocations
  have hsome : registerServerRoutes builder (some handlers) locations =
      (registerAuthenticationApiRoutes builder (some handlers)).toOption.bind
        fun middle => (registerLocations middle locations).toOption := by
    have hne : locations.isEmpty = false := List.isEmpty_eq_false_iff.mpr h
    simp only [registerServerRoutes,registerFilesystemApiRoutes,hne,Bool.false_eq_true,if_false]
    cases registerAuthenticationApiRoutes builder (some handlers) <;> rfl
  rw [hsome]
  exact hboth

end SpareNode.Application
