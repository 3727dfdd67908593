import SpareNode.Application.LocationRoutes
import SpareNode.Authentication.BodyPersistence
import SpareNode.Http.Transport.InterimRequests
import SpareNode.Http.Transport.MemoryBodies

/-! # Where the body of a login request is kept

The storage policy decides on the head, before there is a request; the router decides on the
request. Both pick out the same requests, so that no password is written to a file.
-/
namespace SpareNode.Authentication
open Http Http.Api Session Storage Network BufferedRequest
variable {σ : Type}

/-- The route that `register_authentication_api_routes` registers first. -/
def loginRoute (handlers : AuthenticationHandlers σ) : Route (HttpRouteHandler σ) :=
  ⟨.post,loginPath,false,fun request _ => handlers.login request⟩

/-- The router selects the login handler for a method and a target. -/
def SelectsLogin (router : HttpRouter (HttpRouteHandler σ)) (handlers : AuthenticationHandlers σ)
    (method : HttpMethod) (target : Bytes) : Prop :=
  router.selectRoute method (requestPath target) = some (loginRoute handlers)

section Routes
variable {base builder : ApiRouterBuilder σ} {handlers : AuthenticationHandlers σ}
  {locations : List (FilesystemApiLocation σ)}

theorem login_sole (h : registerServerRoutes base (some handlers) locations = some builder) :
    HttpRouter.Sole (loginRoute handlers) builder.router.routes := by
  have hne : locations ≠ [] := by
    rintro rfl
    unfold registerServerRoutes at h
    dsimp only at h
    split at h
    · cases h
    · cases h
  have hasks : Application.Asks base _ _ := Application.registerServerRoutes_asks handlers hne
  have hrouter := hasks.router
  rw [h,Option.map_some] at hrouter
  have hall := toOption_ok hrouter.symm
  have hroute : loginRoute handlers =
      (⟨.post,loginPath,fun request _ => handlers.login request⟩ : Registration (HttpRouteHandler σ)).route := by
    have hsuffix : (ascii "/*").isSuffixOf loginPath = false := by decide
    simp [Registration.route,hsuffix,loginRoute]
  rw [hroute]
  exact HttpRouter.registerAll_sole hall

/-- The router selects the login handler exactly for the method and the path of the policy. -/
theorem selectsLogin_iff (h : registerServerRoutes base (some handlers) locations = some builder)
    (method : HttpMethod) (target : Bytes) :
    SelectsLogin builder.build handlers method target ↔ method = .post ∧ requestPath target = loginPath :=
  (login_sole h).selectRoute_iff rfl nofun

theorem dispatch_login {router : HttpRouter (HttpRouteHandler σ)} {request : RoutedRequest} (date : Bytes)
    (h : SelectsLogin router handlers request.method request.target) :
    router.dispatch date request = handlers.login request := by
  have hpost : request.method = .post := by
    rcases (HttpRouter.accepts_iff.mp (HttpRouter.selectRoute_mem h).2).1 with hsame | ⟨-,hget⟩
    · exact hsame.symm
    · cases hget
  unfold HttpRouter.dispatch
  rw [if_neg (by rw [hpost]; exact fun h => nomatch h.1)]
  dsimp only
  rw [h]
  rfl

end Routes

theorem policy_memory_iff (head : HttpRequestHead) :
    (authenticationBodyStoragePolicy head).mode = .memory ↔
      head.method = .post ∧ requestPath head.target = loginPath := by
  unfold authenticationBodyStoragePolicy
  split
  · rename_i hlogin
    exact ⟨fun _ => hlogin,fun _ => rfl⟩
  · rename_i hother
    exact ⟨nofun,fun hlogin => absurd hlogin hother⟩

theorem policy_limit {head : HttpRequestHead} (h : (authenticationBodyStoragePolicy head).mode = .memory) :
    (authenticationBodyStoragePolicy head).maxBodyBytes = maximumLoginBodyBytes := by
  unfold authenticationBodyStoragePolicy
  rw [if_pos ((policy_memory_iff head).mp h)]

theorem policy_limit_ne_zero {head : HttpRequestHead} (h : (authenticationBodyStoragePolicy head).mode = .memory) :
    (authenticationBodyStoragePolicy head).maxBodyBytes ≠ 0 := by
  rw [policy_limit h]
  decide

/-- What a call of `feed` keeps of a login request: its length is allowed. -/
def LengthAllowed (request : BufferedRequest) : Prop :=
  request.storagePolicySelector = some authenticationBodyStoragePolicy ∧
  ∀ head, request.head = some head → (authenticationBodyStoragePolicy head).mode = .memory →
    head.contentLength ≤ maximumLoginBodyBytes

theorem feed_lengthAllowed {request request' : BufferedRequest} (env : StorageEnvironment) (bytes : Bytes)
    (h : LengthAllowed request) (hfeed : request.feed env bytes = (request',.ok ())) : LengthAllowed request' := by
  obtain ⟨hselect,hlength⟩ := h
  refine ⟨?_,?_⟩
  · have hkept := feed_selector env request bytes
    rw [hfeed] at hkept
    exact hkept.trans hselect
  · intro head hhead hmode
    cases hnone : request.head with
    | none =>
      rw [← policy_limit hmode]
      exact feed_declared env hselect hnone hfeed hhead (policy_limit_ne_zero hmode)
    | some head' =>
      have hkept := @feed_head env request bytes head' hnone
      rw [hfeed] at hkept
      cases hkept.symm.trans hhead
      exact hlength head hnone hmode

/-- Whatever routes of filesystem locations follow the authentication routes: the policy selects
memory exactly for the requests whose dispatch is the login handler. However a login request
comes in, the temporary storage is asked for nothing, the body of a completed one is a whole body
of at most the login limit, and a longer declared length fails before the client is told to go on. -/
theorem login_body_in_memory (base : ApiRouterBuilder σ) (handlers : AuthenticationHandlers σ)
    (locations : List (FilesystemApiLocation σ)) (builder : ApiRouterBuilder σ)
    (h : registerServerRoutes base (some handlers) locations = some builder) :
    (∀ head : HttpRequestHead, (authenticationBodyStoragePolicy head).mode = .memory ↔
      SelectsLogin builder.build handlers head.method head.target) ∧
    (∀ date (request : RoutedRequest), SelectsLogin builder.build handlers request.method request.target →
      builder.build.dispatch date request = handlers.login request) ∧
    (∀ limits calls head, ∀ request : BufferedRequest, request =
        runCalls { limits := limits, storagePolicySelector := some authenticationBodyStoragePolicy } calls →
      request.head = some head →
      (∀ view, request.request = some view → view.method = head.method ∧ view.target = head.target) ∧
      (SelectsLogin builder.build handlers head.method head.target →
        (∃ ingestor, request.ingestor = some ingestor ∧ ingestor.writer = none ∧ ingestor.artifact = none ∧
          ingestor.history = []) ∧
        ∀ view, request.request = some view → ∃ wire payload, request.metadata ++ wire <:+: fedBytes calls ∧
          IsBody head (bodyLimits limits (authenticationBodyStoragePolicy head)) wire payload ∧
          payload.length ≤ maximumLoginBodyBytes ∧ view = head.view payload)) ∧
    (∀ limits calls env bytes head, ∀ request request' : BufferedRequest, request =
        runCalls { limits := limits, storagePolicySelector := some authenticationBodyStoragePolicy } calls →
      request.head = none → request'.head = some head →
      SelectsLogin builder.build handlers head.method head.target → maximumLoginBodyBytes < head.contentLength →
      request.feed env bytes ≠ (request',.ok ())) ∧
    ∀ world config application connection rounds,
      config.bodyStoragePolicySelector = some authenticationBodyStoragePolicy →
      ∀ request, .interim request ∈ (handleHttpConnection world config application connection rounds).1.log →
      ∀ head, request.head = some head → SelectsLogin builder.build handlers head.method head.target →
        head.contentLength ≤ maximumLoginBodyBytes := by
  have hagree (head : HttpRequestHead) : (authenticationBodyStoragePolicy head).mode = .memory ↔
      SelectsLogin builder.build handlers head.method head.target :=
    (policy_memory_iff head).trans (selectsLogin_iff h head.method head.target).symm
  refine ⟨hagree,fun date request => dispatch_login date,?_,?_,?_⟩
  · rintro limits calls head request rfl hhead
    have htracks := runCalls_tracks limits authenticationBodyStoragePolicy calls
    refine ⟨?_,?_⟩
    · intro view hview
      obtain ⟨head',body,hhead',rfl⟩ := request_view hview
      cases hhead.symm.trans hhead'
      exact ⟨rfl,rfl⟩
    · intro hlogin
      have hmode := (hagree head).mpr hlogin
      obtain ⟨ingestor,hingestor,hmemory⟩ := htracks.inMemory hhead hmode (policy_limit_ne_zero hmode)
      refine ⟨⟨ingestor,hingestor,hmemory.writer,hmemory.artifact,hmemory.history⟩,?_⟩
      intro view hview
      have hcompleted := htracks.completed hhead hmode (policy_limit_ne_zero hmode) hview
      rwa [policy_limit hmode] at hcompleted
  · rintro limits calls env bytes head request request' rfl hnone hhead hlogin hlonger hfeed
    have hmode := (hagree head).mpr hlogin
    have hdeclared := feed_declared env (runCalls_tracks limits authenticationBodyStoragePolicy calls).selector
      hnone hfeed hhead (policy_limit_ne_zero hmode)
    rw [policy_limit hmode] at hdeclared
    exact absurd hlonger (Nat.not_lt.mpr hdeclared)
  · intro world config application connection rounds hselect request hmem head hhead hlogin
    have hinterims := handleHttpConnection_interims world config
      (fun request env bytes request' hallowed hfeed => feed_lengthAllowed env bytes hallowed hfeed)
      application connection rounds ⟨hselect,fun head hsome => nomatch hsome⟩
    exact (hinterims request hmem).2 head hhead ((hagree head).mpr hlogin)

/-- A login with a query, on a server with one location. -/
theorem login_body_in_memory_query :
    SelectsLogin filesBuilder.build noHandlers .post (ascii "/api/auth/login?next=/files") :=
  ((login_body_in_memory (sessionBuilder emptyEnvironment []) noHandlers [filesLocation] filesBuilder
    filesBuilder_eq).1 ⟨.post,ascii "/api/auth/login?next=/files",[],0,0,false⟩).mp (by decide)

end SpareNode.Authentication
