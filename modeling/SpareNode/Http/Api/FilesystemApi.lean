import SpareNode.Http.Api.ApiRouterBuilder

/-! # The filesystem routes

Every location has an exact and a nested route for each of its four operations, all of them
protected. What an operation does with the location's service is a field of the location.
-/
namespace SpareNode.Http.Api
variable {σ : Type}

/-- `handle_resource`, `handle_upload`, `handle_directory_creation` and `handle_deletion`. -/
inductive FilesystemOperation where
  | resource | upload | directoryCreation | deletion
deriving DecidableEq, Repr

structure FilesystemApiLocation (σ : Type) where
  apiPath : Bytes
  handle : FilesystemOperation → RoutedRequest → Bytes → StateM σ RouteResult

inductive FilesystemApiErrorCode where
  | missingLocation | routeRegistrationFailed
deriving DecidableEq, Repr

/-- A route error that is not set is value-initialized. -/
structure FilesystemApiError where
  code : FilesystemApiErrorCode
  routeError : HttpRouteRegistrationErrorCode := .invalidMethod
deriving DecidableEq, Repr

/-- The pattern of the nested routes of a location. -/
def nestedPath (apiPath : Bytes) : Bytes := if apiPath = ascii "/" then ascii "/*" else apiPath ++ ascii "/*"

def registerLocationRoutes (builder : ApiRouterBuilder σ) (method : HttpMethod) (apiPath : Bytes)
    (exactHandler nestedHandler : HttpRouteHandler σ) :
    Except HttpRouteRegistrationErrorCode (ApiRouterBuilder σ) :=
  match builder.registerProtected ⟨method,apiPath,exactHandler⟩ with
  | .error e => .error e
  | .ok builder => builder.registerProtected ⟨method,nestedPath apiPath,nestedHandler⟩

/-- One operation on a location, under the method that asks for it. -/
def registerOperationRoutes (builder : ApiRouterBuilder σ) (location : FilesystemApiLocation σ)
    (method : HttpMethod) (operation : FilesystemOperation) :
    Except HttpRouteRegistrationErrorCode (ApiRouterBuilder σ) :=
  registerLocationRoutes builder method location.apiPath
    (fun request _ => location.handle operation request [])
    (fun request parameters => location.handle operation request parameters.wildcardSuffix)

def registerReadRoutes (builder : ApiRouterBuilder σ) (location : FilesystemApiLocation σ) :=
  registerOperationRoutes builder location .get .resource

def registerUploadRoutes (builder : ApiRouterBuilder σ) (location : FilesystemApiLocation σ) :=
  registerOperationRoutes builder location .put .upload

def registerDirectoryCreationRoutes (builder : ApiRouterBuilder σ) (location : FilesystemApiLocation σ) :=
  registerOperationRoutes builder location .post .directoryCreation

def registerDeletionRoutes (builder : ApiRouterBuilder σ) (location : FilesystemApiLocation σ) :=
  registerOperationRoutes builder location .deleteMethod .deletion

def registerLocation (builder : ApiRouterBuilder σ) (location : FilesystemApiLocation σ) :
    Except HttpRouteRegistrationErrorCode (ApiRouterBuilder σ) := do
  let builder ← registerReadRoutes builder location
  let builder ← registerUploadRoutes builder location
  let builder ← registerDirectoryCreationRoutes builder location
  registerDeletionRoutes builder location

/-- The loop of `register_filesystem_api_routes`. -/
def registerLocations (builder : ApiRouterBuilder σ) :
    List (FilesystemApiLocation σ) → Except FilesystemApiError (ApiRouterBuilder σ)
  | [] => .ok builder
  | location :: locations =>
    match registerLocation builder location with
    | .error e => .error ⟨.routeRegistrationFailed,e⟩
    | .ok builder => registerLocations builder locations

def registerFilesystemApiRoutes (builder : ApiRouterBuilder σ) (locations : List (FilesystemApiLocation σ)) :
    Except FilesystemApiError (ApiRouterBuilder σ) :=
  if locations.isEmpty then .error { code := .missingLocation } else registerLocations builder locations

section Preservation
variable {P : ApiRouterBuilder σ → Prop} {builder builder' : ApiRouterBuilder σ}

/-- What the registration of any route of a location keeps. -/
def KeptBy (P : ApiRouterBuilder σ → Prop) (location : FilesystemApiLocation σ) : Prop :=
  ∀ method pattern operation (suffix : HttpRouteParameters → Bytes) builder builder', P builder →
    builder.registerProtected ⟨method,pattern,fun request parameters =>
      location.handle operation request (suffix parameters)⟩ = .ok builder' → P builder'

theorem registerOperationRoutes_kept {location : FilesystemApiLocation σ} {method : HttpMethod}
    {operation : FilesystemOperation} (hkept : KeptBy P location) (h : P builder)
    (hregister : registerOperationRoutes builder location method operation = .ok builder') : P builder' := by
  unfold registerOperationRoutes registerLocationRoutes at hregister
  split at hregister
  · cases hregister
  · rename_i middle hexact
    have hmiddle : P middle := hkept method location.apiPath operation (fun _ => []) builder middle h hexact
    exact hkept method (nestedPath location.apiPath) operation HttpRouteParameters.wildcardSuffix middle
      builder' hmiddle hregister

theorem registerLocation_kept {location : FilesystemApiLocation σ} (hkept : KeptBy P location) (h : P builder)
    (hregister : registerLocation builder location = .ok builder') : P builder' := by
  unfold registerLocation at hregister
  simp only [bind,Except.bind] at hregister
  split at hregister
  · cases hregister
  · rename_i reads hreads
    split at hregister
    · cases hregister
    · rename_i uploads huploads
      split at hregister
      · cases hregister
      · rename_i directories hdirectories
        have hreads' := registerOperationRoutes_kept hkept h hreads
        have huploads' := registerOperationRoutes_kept hkept hreads' huploads
        have hdirectories' := registerOperationRoutes_kept hkept huploads' hdirectories
        exact registerOperationRoutes_kept hkept hdirectories' hregister

/-- What every registration of a protected route keeps holds of the whole API. -/
theorem registerFilesystemApiRoutes_kept {locations : List (FilesystemApiLocation σ)}
    (hkept : ∀ location ∈ locations, KeptBy P location) (h : P builder)
    (hregister : registerFilesystemApiRoutes builder locations = .ok builder') : P builder' := by
  unfold registerFilesystemApiRoutes at hregister
  split at hregister
  · cases hregister
  · rename_i hsome
    clear hsome
    induction locations generalizing builder with
    | nil =>
      cases hregister
      exact h
    | cons location locations ih =>
      rw [registerLocations] at hregister
      split at hregister
      · cases hregister
      · rename_i middle hmiddle
        have hfirst := registerLocation_kept (hkept location List.mem_cons_self) h hmiddle
        exact ih (fun location hlocation => hkept location (List.mem_cons_of_mem _ hlocation)) hfirst hregister

end Preservation
end SpareNode.Http.Api
