import SpareNode.Http.Routing.RouteSelection

/-! # Dispatch by the set of routes

A request that no route of its method answers is refused with 404 or 405, and the `Allow` field
of a 405 lists the methods that a route of the path would serve.
-/
namespace SpareNode.Http
open BestOfList

namespace HttpRouter
variable {H : Type} {path : Bytes}

theorem visit_pathExists (found : PathMethods) (route : Route H) :
    (found.visit path route).pathExists =
      (found.pathExists || pathMatches route.wildcard route.pathPrefix path) := by
  unfold PathMethods.visit
  split <;> simp [*]

theorem visit_allowed (found : PathMethods) (route : Route H) (method : HttpMethod) :
    (found.visit path route).allowed method = (found.allowed method || accepts method path route) := by
  unfold PathMethods.visit
  split
  · rename_i hmatch
    simp only [accepts,hmatch,Bool.and_true]
    split
    · rename_i hget
      by_cases hhead : method = .head
      · subst hhead
        simp [hget]
      · simp [hhead,Function.update_apply,eq_comm,Bool.or_comm]
    · rename_i hget
      simp [hget,Function.update_apply,eq_comm,Bool.or_comm]
  · rename_i hmatch
    simp [accepts,hmatch]

theorem foldl_visit (routes : List (Route H)) (found : PathMethods) :
    (routes.foldl (PathMethods.visit path) found).pathExists =
        (found.pathExists || routes.any (fun route => pathMatches route.wildcard route.pathPrefix path)) ∧
      ∀ method, (routes.foldl (PathMethods.visit path) found).allowed method =
        (found.allowed method || routes.any (accepts method path)) := by
  induction routes generalizing found with
  | nil => simp
  | cons route routes ih =>
    obtain ⟨hexists,hallowed⟩ := ih (found.visit path route)
    refine ⟨?_,?_⟩
    · rw [List.foldl_cons,hexists,visit_pathExists,List.any_cons,Bool.or_assoc]
    · intro method
      rw [List.foldl_cons,hallowed,visit_allowed,List.any_cons,Bool.or_assoc]

theorem pathMethods_pathExists (router : HttpRouter H) : (router.pathMethods path).pathExists = true ↔
    ∃ route ∈ router.routes, pathMatches route.wildcard route.pathPrefix path = true := by
  rw [pathMethods,(foldl_visit router.routes {}).1]
  simp

/-- The two loops agree: a method is allowed when selecting with it would find a route. -/
theorem pathMethods_allowed (router : HttpRouter H) (method : HttpMethod) :
    (router.pathMethods path).allowed method = (router.selectRoute method path).isSome := by
  rw [pathMethods,(foldl_visit router.routes {}).2,Bool.eq_iff_iff,Option.isSome_iff_ne_none,Ne,
    selectRoute_eq_none]
  simp

def allowSeparator : Bytes := ascii ", "

theorem spelling_ne_nil (method : HttpMethod) : method.spelling ≠ [] := by cases method <;> decide

def joinMethods (ms : List HttpMethod) : Bytes := allowSeparator.intercalate (ms.map HttpMethod.spelling)

theorem joinMethods_concat (ms : List HttpMethod) (method : HttpMethod) (h : ms ≠ []) :
    joinMethods (ms ++ [method]) = joinMethods ms ++ allowSeparator ++ method.spelling := by
  induction ms with
  | nil => exact absurd rfl h
  | cons first ms ih =>
    cases ms with
    | nil => simp [joinMethods,List.intercalate_cons_cons]
    | cons second ms =>
      have hrest := ih (by simp)
      simp only [joinMethods,List.cons_append,List.map_cons,List.intercalate_cons_cons] at hrest ⊢
      rw [hrest]
      simp only [List.append_assoc]

theorem joinMethods_isEmpty (ms : List HttpMethod) : (joinMethods ms).isEmpty = ms.isEmpty := by
  cases ms with
  | nil => rfl
  | cons first ms =>
    cases ms with
    | nil => simp [joinMethods,spelling_ne_nil]
    | cons second ms => simp [joinMethods,List.intercalate_cons_cons,spelling_ne_nil]

theorem appendAllowed_joinMethods (allowed : HttpMethod → Bool) (ms : List HttpMethod) (method : HttpMethod) :
    appendAllowed allowed (joinMethods ms) method =
      joinMethods (ms ++ if allowed method then [method] else []) := by
  unfold appendAllowed
  cases hallowed : allowed method with
  | false => simp
  | true =>
    rw [joinMethods_isEmpty]
    cases ms with
    | nil => simp [joinMethods]
    | cons first ms =>
      simp only [Bool.not_true,Bool.false_eq_true,if_false,if_true,List.isEmpty_cons]
      rw [joinMethods_concat _ _ (List.cons_ne_nil _ _)]
      rfl

theorem foldl_appendAllowed (allowed : HttpMethod → Bool) (ms rest : List HttpMethod) :
    rest.foldl (appendAllowed allowed) (joinMethods ms) = joinMethods (ms ++ rest.filter allowed) := by
  induction rest generalizing ms with
  | nil => simp
  | cons method rest ih =>
    rw [List.foldl_cons,appendAllowed_joinMethods,ih]
    cases hallowed : allowed method <;> simp [hallowed]

theorem allowHeader_eq (allowed : HttpMethod → Bool) :
    allowHeader allowed = ⟨ascii "Allow",joinMethods (methods.filter allowed)⟩ := by
  have h := foldl_appendAllowed allowed [] methods
  rw [List.nil_append] at h
  rw [allowHeader,← h]
  rfl

theorem appendAllowed_value (allowed : HttpMethod → Bool) (allow : Bytes) (method : HttpMethod)
    (h : allow.all isHttpFieldValueByte = true) :
    (appendAllowed allowed allow method).all isHttpFieldValueByte = true ∧
      (appendAllowed allowed allow method).length ≤ allow.length + 9 := by
  have hspelling : method.spelling.all isHttpFieldValueByte = true ∧ method.spelling.length ≤ 7 := by
    cases method <;> decide
  have hseparator : (ascii ", ").all isHttpFieldValueByte = true ∧ (ascii ", ").length = 2 := by decide
  unfold appendAllowed
  split
  · exact ⟨h,by omega⟩
  · rw [List.all_append,List.length_append,hspelling.1]
    split
    · exact ⟨by simp [h],by omega⟩
    · rw [List.all_append,List.length_append,h,hseparator.1,hseparator.2]
      exact ⟨rfl,by omega⟩

/-- Every allow list is a valid field value of at most nine bytes for each method. -/
theorem allowHeader_value (allowed : HttpMethod → Bool) :
    (allowHeader allowed).value.all isHttpFieldValueByte = true ∧ (allowHeader allowed).value.length ≤ 54 := by
  have hfold (ms : List HttpMethod) (allow : Bytes) (h : allow.all isHttpFieldValueByte = true) :
      (ms.foldl (appendAllowed allowed) allow).all isHttpFieldValueByte = true ∧
        (ms.foldl (appendAllowed allowed) allow).length ≤ allow.length + 9 * ms.length := by
    induction ms generalizing allow with
    | nil => exact ⟨h,by simp⟩
    | cons method ms ih =>
      obtain ⟨hvalue,hsize⟩ := appendAllowed_value allowed allow method h
      obtain ⟨hrest,hlength⟩ := ih _ hvalue
      refine ⟨hrest,?_⟩
      rw [List.foldl_cons,List.length_cons]
      omega
  exact hfold methods [] rfl

/-- A routing response that passes its own check carries its status and its fields. -/
theorem makeRoutingResponse_ok {status : HttpStatusCode} {headers : List HttpResponseHeader}
    (h : validateResponse status (httpReasonPhrase status) headers 0 = .ok ()) (date : Bytes) :
    ∃ response, makeRoutingResponse date status headers = .ok response ∧ response.statusCode = status ∧
      response.headers = headers := by
  have hcreate : HttpResponse.create date status (httpReasonPhrase status) headers [] = .ok
      { statusCode := status
        reasonPhrase := httpReasonPhrase status
        headers := headers
        memoryBody := []
        contentLength := 0
        dateValue := originationDate status date
        bodyReader := none } := by
    simp [HttpResponse.create,h]
  rw [makeRoutingResponse,hcreate]
  exact ⟨_,rfl,rfl,rfl⟩

theorem noContent_valid : validateResponse .noContent (httpReasonPhrase .noContent) [] 0 = .ok () := by
  decide +kernel

theorem notFound_valid : validateResponse .notFound (httpReasonPhrase .notFound) [] 0 = .ok () := by
  decide +kernel

theorem methodNotAllowed_valid (allowed : HttpMethod → Bool) :
    validateResponse .methodNotAllowed (httpReasonPhrase .methodNotAllowed) [allowHeader allowed] 0 = .ok () := by
  obtain ⟨hvalue,hsize⟩ := allowHeader_value allowed
  have hfixed : fixedHeadSize .methodNotAllowed (httpReasonPhrase .methodNotAllowed) 0 ≤ 200 := by decide +kernel
  have hheader (remaining : ℕ) (hremaining : 100 ≤ remaining) :
      ∃ size, validateHeader (allowHeader allowed) 0 remaining = .ok size := by
    have hname : (allowHeader allowed).name = ascii "Allow" := rfl
    have hroom : ¬(remaining < 5 ∨ remaining - 5 < (allowHeader allowed).value.length ∨
        remaining - 5 - (allowHeader allowed).value.length < 4) := by omega
    have hlength : (ascii "Allow").length = 5 := by decide
    unfold validateHeader
    rw [hname,hvalue,hlength,if_neg (by decide),if_neg (by decide),if_neg (by decide),if_neg (by decide),
      if_neg (by decide),if_neg hroom]
    exact ⟨_,rfl⟩
  obtain ⟨size,hok⟩ := hheader
    (maximumHeadBytes - fixedHeadSize .methodNotAllowed (httpReasonPhrase .methodNotAllowed) 0)
    (by rw [maximumHeadBytes]; omega)
  unfold validateResponse
  rw [if_neg (by decide +kernel),if_neg (by decide +kernel),if_neg (by decide +kernel),
    if_neg (by simp [maximumHeaderCount]),if_neg (by rw [maximumHeadBytes]; omega)]
  simp only [validateHeaders,hok]

variable {σ : Type}

/-- How a router that holds some routes answers a request; no route serves the whole server. -/
structure DispatchedBy (routes : List (Route (HttpRouteHandler σ))) (router : HttpRouter (HttpRouteHandler σ))
    (date : Bytes) (request : RoutedRequest) : Prop where
  serverWide : request.method = .options → request.target = ascii "*" →
    ∃ response, router.dispatch date request = pure (.ok response) ∧ response.statusCode = .noContent
  served : ¬(request.method = .options ∧ request.target = ascii "*") →
    ∀ route, router.selectRoute request.method (requestPath request.target) = some route →
      ∃ suffix, router.dispatch date request = route.handler request ⟨suffix⟩ ∧
        route.pathPrefix ++ suffix = requestPath request.target
  refused : ¬(request.method = .options ∧ request.target = ascii "*") →
    router.selectRoute request.method (requestPath request.target) = none →
      ∃ response, router.dispatch date request = pure (.ok response) ∧
        (response.statusCode = .notFound ↔ ∀ route ∈ routes,
          pathMatches route.wildcard route.pathPrefix (requestPath request.target) = false) ∧
        (response.statusCode ≠ .notFound → response.statusCode = .methodNotAllowed ∧
          ∃ listed, response.headers = [⟨ascii "Allow",joinMethods listed⟩] ∧ listed.Nodup ∧
            (∀ m, m ∈ listed ↔ (router.selectRoute m (requestPath request.target)).isSome = true) ∧
            (.get ∈ listed → .head ∈ listed))

/-- A path that GET serves is served for HEAD as well. -/
theorem selectRoute_head {router : HttpRouter H} (h : (router.selectRoute .get path).isSome = true) :
    (router.selectRoute .head path).isSome = true := by
  rw [Option.isSome_iff_ne_none,Ne,selectRoute_eq_none] at h ⊢
  intro hnone
  apply h
  intro route hroute
  have hrefused := hnone route hroute
  rw [← Bool.not_eq_true,accepts_iff] at hrefused ⊢
  rintro ⟨hmethod | ⟨hhead,-⟩,hmatch⟩
  · exact hrefused ⟨Or.inr ⟨rfl,hmethod⟩,hmatch⟩
  · cases hhead

theorem dispatched (router : HttpRouter (HttpRouteHandler σ)) (date : Bytes) (request : RoutedRequest) :
    DispatchedBy router.routes router date request := by
  refine ⟨?_,?_,?_⟩
  · intro hmethod htarget
    obtain ⟨response,hresponse,hstatus,-⟩ := makeRoutingResponse_ok noContent_valid date
    refine ⟨response,?_,hstatus⟩
    rw [dispatch,if_pos ⟨hmethod,htarget⟩,hresponse]
  · intro hpath route hroute
    refine ⟨capturedSuffix route.wildcard route.pathPrefix (requestPath request.target),?_,
      pathMatches_append (accepts_iff.mp (selectRoute_mem hroute).2).2⟩
    simp only [dispatch,if_neg hpath,hroute]
  · intro hpath hnone
    cases hexists : (router.pathMethods (requestPath request.target)).pathExists with
    | false =>
      obtain ⟨response,hresponse,hstatus,-⟩ := makeRoutingResponse_ok notFound_valid date
      refine ⟨response,?_,⟨?_,fun _ => hstatus⟩,fun hother => absurd hstatus hother⟩
      · simp only [dispatch,if_neg hpath,hnone,hexists,Bool.not_false,if_true,hresponse]
      · intro _ route hroute
        by_contra hmatch
        rw [Bool.not_eq_false] at hmatch
        rw [(pathMethods_pathExists router).mpr ⟨route,hroute,hmatch⟩] at hexists
        cases hexists
    | true =>
      obtain ⟨response,hresponse,hstatus,hheaders⟩ := makeRoutingResponse_ok
        (methodNotAllowed_valid (router.pathMethods (requestPath request.target)).allowed) date
      have hmem (m : HttpMethod) :
          m ∈ methods.filter (router.pathMethods (requestPath request.target)).allowed ↔
            (router.selectRoute m (requestPath request.target)).isSome = true := by
        rw [List.mem_filter,pathMethods_allowed]
        exact and_iff_right (by cases m <;> decide)
      refine ⟨response,?_,⟨?_,?_⟩,fun _ => ⟨hstatus,_,?_,?_,hmem,?_⟩⟩
      · simp only [dispatch,if_neg hpath,hnone,hexists,Bool.not_true,Bool.false_eq_true,if_false,hresponse]
      · intro hfound
        rw [hstatus] at hfound
        cases hfound
      · intro hnever
        obtain ⟨route,hroute,hmatch⟩ := (pathMethods_pathExists router).mp hexists
        rw [hnever route hroute] at hmatch
        cases hmatch
      · rw [hheaders,allowHeader_eq]
      · exact List.Nodup.filter _ (by decide)
      · intro hget
        exact (hmem .head).mpr (selectRoute_head ((hmem .get).mp hget))

/-- Routing depends only on the set of routes. -/
theorem dispatch_by_route_set (table : RouteTable (HttpRouteHandler σ))
    (order order' : List (Registration (HttpRouteHandler σ))) (h : order.Perm table.entries)
    (h' : order'.Perm table.entries) :
    ∃ router router', ({} : HttpRouter (HttpRouteHandler σ)).registerAll order = .ok router ∧
      ({} : HttpRouter (HttpRouteHandler σ)).registerAll order' = .ok router' ∧
      (∀ method path, router.selectRoute method path = router'.selectRoute method path) ∧
      (∀ method path, router.selectRoute method path = none ↔
        ∀ route ∈ table.entries.map Registration.route, accepts method path route = false) ∧
      (∀ method path route, router.selectRoute method path = some route →
        Chosen (table.entries.map Registration.route) method path route) ∧
      ∀ date request, DispatchedBy (table.entries.map Registration.route) router date request := by
  obtain ⟨hrouter,hkeys⟩ := registerAll_table table h
  obtain ⟨hrouter',-⟩ := registerAll_table table h'
  have hmem (route : Route (HttpRouteHandler σ)) :
      route ∈ order.map Registration.route ↔ route ∈ table.entries.map Registration.route := (h.map _).mem_iff
  refine ⟨_,_,hrouter,hrouter',?_,?_,?_,
    ?_⟩
  · intro method path
    rw [selectRoute_eq_best,selectRoute_eq_best]
    exact best_perm (((h.trans h'.symm).map _).filter _) (unambiguous_accepted hkeys)
  · intro method path
    rw [selectRoute_eq_none]
    simp only [hmem]
  · intro method path route hroute
    rw [selectRoute_eq_best] at hroute
    have hchosen := chosen_of_best hroute
    refine ⟨(hmem route).mp hchosen.mem,hchosen.accepted,?_,?_,?_,hchosen.whole⟩
    · simpa only [List.nil_append,hmem] using hchosen.exactFirst
    · simpa only [List.nil_append,hmem] using hchosen.longest
    · simpa only [List.nil_append,hmem] using hchosen.explicitHead
  · intro date request
    have hdispatched := dispatched ⟨order.map Registration.route⟩ date request
    refine ⟨hdispatched.serverWide,hdispatched.served,?_⟩
    simpa only [List.nil_append,hmem] using hdispatched.refused

def statusPage : HttpRouteHandler Unit := fun _ _ => pure (.error ⟨.handlerFailure,0⟩)

def statusRoute (method : HttpMethod) : Registration (HttpRouteHandler Unit) := ⟨method,ascii "/status",statusPage⟩

theorem dispatch_by_route_set_two :
    ∃ router router', ({} : HttpRouter (HttpRouteHandler Unit)).registerAll [statusRoute .get,statusRoute .head] =
        .ok router ∧
      ({} : HttpRouter (HttpRouteHandler Unit)).registerAll [statusRoute .head,statusRoute .get] = .ok router' ∧
      ∀ method path, router.selectRoute method path = router'.selectRoute method path := by
  have hvalid : isValidPattern (ascii "/status") = true := by decide +kernel
  obtain ⟨router,router',hrouter,hrouter',hsame,-⟩ := dispatch_by_route_set
    ⟨[statusRoute .get,statusRoute .head],by simp [statusRoute,hvalid],by simp [statusRoute,Registration.key],
      by decide⟩
    [statusRoute .get,statusRoute .head] [statusRoute .head,statusRoute .get] (List.Perm.refl _) (List.Perm.swap _ _ _)
  exact ⟨router,router',hrouter,hrouter',hsame⟩

/-- A server-wide request selects no route and is no request for an unknown path either. -/
theorem dispatch_server_wide :
    ∃ router, ({} : HttpRouter (HttpRouteHandler Unit)).registerAll [statusRoute .get] = .ok router ∧
      router.selectRoute .options (requestPath (ascii "*")) = none ∧
      (∀ route ∈ router.routes, pathMatches route.wildcard route.pathPrefix (requestPath (ascii "*")) = false) ∧
      ∃ response, router.dispatch [] ⟨⟨.options,ascii "*",[],[]⟩,⟨[],[],false,false⟩⟩ = pure (.ok response) ∧
        response.statusCode ≠ .notFound ∧ response.statusCode ≠ .methodNotAllowed := by
  have hvalid : isValidPattern (ascii "/status") = true := by decide +kernel
  have hrouter := @registerAll_ok _ [statusRoute .get] ({} : HttpRouter (HttpRouteHandler Unit))
    (by simp [statusRoute,hvalid]) (by simp) (by decide)
  refine ⟨_,hrouter,?_,?_,?_⟩
  · rw [selectRoute_eq_none]
    simp only [List.nil_append,List.map_cons,List.map_nil,List.mem_singleton,forall_eq]
    decide +kernel
  · simp only [List.nil_append,List.map_cons,List.map_nil,List.mem_singleton,forall_eq]
    decide +kernel
  · obtain ⟨response,hresponse,hstatus⟩ := (dispatched _ [] ⟨⟨.options,ascii "*",[],[]⟩,⟨[],[],false,false⟩⟩).serverWide rfl rfl
    refine ⟨response,hresponse,?_,?_⟩ <;> rw [hstatus] <;> decide

end HttpRouter
end SpareNode.Http
