import SpareNode.Http.Routing.RouteSelection

/-! # Registration of a whole table

A registration call by call succeeds exactly when the patterns are valid, no two of them are the same route
and all of them fit.
-/
namespace SpareNode.Http.HttpRouter
variable {H : Type} {router router' : HttpRouter H}

theorem registerRoute_inv {entry : Registration H}
    (h : router.registerRoute entry.method entry.pattern (some entry.handler) = .ok router') :
    isValidPattern entry.pattern = true ∧ routeKey entry.route ∉ router.routes.map routeKey ∧
      router.routes.length < maximumRouteCount ∧ router' = ⟨router.routes ++ [entry.route]⟩ := by
  unfold registerRoute at h
  split at h
  · cases h
  · rename_i hvalid
    change (if router.routes.any (fun route => route.method = entry.route.method &&
        route.wildcard = entry.route.wildcard && route.pathPrefix = entry.route.pathPrefix) then _
      else if maximumRouteCount ≤ router.routes.length then _
      else Except.ok (HttpRouter.mk (router.routes ++ [entry.route]))) = _ at h
    split at h
    · cases h
    · rename_i hnew
      split at h
      · cases h
      · rename_i hroom
        refine ⟨by simpa using hvalid,?_,by omega,(Except.ok.inj h).symm⟩
        intro hmem
        obtain ⟨route,hroute,hkey⟩ := List.mem_map.mp hmem
        simp only [routeKey,Prod.mk.injEq] at hkey
        apply hnew
        rw [List.any_eq_true]
        refine ⟨route,hroute,?_⟩
        simp only [Bool.and_eq_true,decide_eq_true_eq]
        exact ⟨⟨hkey.1,hkey.2.1⟩,hkey.2.2⟩

theorem registerAll_inv {order : List (Registration H)} (hstart : (router.routes.map routeKey).Nodup)
    (hsize : router.routes.length ≤ maximumRouteCount) (h : router.registerAll order = .ok router') :
    (∀ entry ∈ order, isValidPattern entry.pattern = true) ∧
      (router.routes.map routeKey ++ order.map (fun entry => routeKey entry.route)).Nodup ∧
        router.routes.length + order.length ≤ maximumRouteCount := by
  induction order generalizing router with
  | nil => exact ⟨nofun,by simpa using hstart,hsize⟩
  | cons entry order ih =>
    rw [registerAll,List.foldlM_cons] at h
    cases hfirst : router.registerRoute entry.method entry.pattern (some entry.handler) with
    | error e =>
      rw [hfirst] at h
      cases h
    | ok middle =>
      rw [hfirst] at h
      obtain ⟨hvalid,hnew,hroom,rfl⟩ := registerRoute_inv hfirst
      have hmiddle : ((router.routes ++ [entry.route]).map routeKey).Nodup := by
        rw [List.map_append]
        refine List.nodup_append.mpr ⟨hstart,List.nodup_singleton _,?_⟩
        intro a ha b hb
        rw [List.map_cons,List.map_nil,List.mem_singleton] at hb
        rintro rfl
        exact hnew (hb ▸ ha)
      obtain ⟨hrest,hkeys,hlength⟩ := ih hmiddle (by simp only [List.length_append,List.length_singleton]; omega) h
      refine ⟨List.forall_mem_cons.mpr ⟨hvalid,hrest⟩,?_,?_⟩
      · simpa using hkeys
      · simp only [List.length_append,List.length_cons,List.length_nil] at hlength ⊢
        omega

/-- A table can be registered call by call exactly when it is a table of one router. -/
theorem registerAll_iff (order : List (Registration H)) (router' : HttpRouter H) :
    ({} : HttpRouter H).registerAll order = .ok router' ↔
      ((∀ entry ∈ order, isValidPattern entry.pattern = true) ∧ (order.map Registration.key).Nodup ∧
        order.length ≤ maximumRouteCount) ∧ router' = ⟨order.map Registration.route⟩ := by
  constructor
  · intro h
    obtain ⟨hvalid,hkeys,hsize⟩ := registerAll_inv (by simp) (by simp) h
    rw [List.map_nil,List.nil_append] at hkeys
    rw [List.length_nil,Nat.zero_add] at hsize
    have hdistinct : (order.map Registration.key).Nodup := by
      apply (List.nodup_map_iff_inj_on (List.Nodup.of_map _ hkeys)).mpr
      intro entry hentry other hother hkey
      rw [Registration.key,Registration.key,Prod.mk.injEq] at hkey
      apply List.inj_on_of_nodup_map hkeys hentry hother
      rw [routeKey,routeKey,Registration.route,Registration.route,hkey.1,hkey.2]
    have hall := (registerAll_table ⟨order,hvalid,hdistinct,hsize⟩ (List.Perm.refl _)).1
    exact ⟨⟨hvalid,hdistinct,hsize⟩,Except.ok.inj (h.symm.trans hall)⟩
  · rintro ⟨⟨hvalid,hdistinct,hsize⟩,rfl⟩
    exact (registerAll_table ⟨order,hvalid,hdistinct,hsize⟩ (List.Perm.refl _)).1

theorem registerAll_append (router : HttpRouter H) (order more : List (Registration H)) :
    router.registerAll (order ++ more) = router.registerAll order >>= fun router => router.registerAll more :=
  List.foldlM_append

/-- A route of the table that no other has the key of. -/
def Sole (route : Route H) (routes : List (Route H)) : Prop :=
  route ∈ routes ∧ ∀ other ∈ routes, routeKey other = routeKey route → other = route

theorem Sole.registerRoute {route : Route H} {entry : Registration H} (hsole : Sole route router.routes)
    (h : router.registerRoute entry.method entry.pattern (some entry.handler) = .ok router') :
    Sole route router'.routes := by
  obtain ⟨-,hnew,-,rfl⟩ := registerRoute_inv h
  obtain ⟨hmem,hunique⟩ := hsole
  refine ⟨List.mem_append_left _ hmem,?_⟩
  intro other hother hkey
  rcases List.mem_append.mp hother with hold | hlast
  · exact hunique other hold hkey
  · rw [List.mem_singleton.mp hlast] at hkey
    exact absurd (hkey ▸ List.mem_map_of_mem hmem) hnew

theorem Sole.registerAll {route : Route H} {order : List (Registration H)} (hsole : Sole route router.routes)
    (h : router.registerAll order = .ok router') : Sole route router'.routes := by
  induction order generalizing router with
  | nil =>
    cases h
    exact hsole
  | cons entry order ih =>
    rw [HttpRouter.registerAll,List.foldlM_cons] at h
    cases hfirst : router.registerRoute entry.method entry.pattern (some entry.handler) with
    | error e =>
      rw [hfirst] at h
      cases h
    | ok middle =>
      rw [hfirst] at h
      exact ih (hsole.registerRoute hfirst) h

/-- The first route of an order has its key alone in the table, whatever the table was before. -/
theorem registerAll_sole {entry : Registration H} {order : List (Registration H)}
    (h : router.registerAll (entry :: order) = .ok router') : Sole entry.route router'.routes := by
  rw [registerAll,List.foldlM_cons] at h
  cases hfirst : router.registerRoute entry.method entry.pattern (some entry.handler) with
  | error e =>
    rw [hfirst] at h
    cases h
  | ok middle =>
    rw [hfirst] at h
    obtain ⟨-,hnew,-,rfl⟩ := registerRoute_inv hfirst
    refine Sole.registerAll ⟨List.mem_append_right _ (List.mem_singleton.mpr rfl),?_⟩ h
    intro other hother hkey
    rcases List.mem_append.mp hother with hold | hlast
    · exact absurd (hkey ▸ List.mem_map_of_mem hold) hnew
    · exact List.mem_singleton.mp hlast

/-- An exact route with its key alone serves its own method on its own path, and nothing else. -/
theorem Sole.selectRoute_iff {route : Route H} {method : HttpMethod} {path : Bytes} (hsole : Sole route router.routes)
    (hexact : route.wildcard = false) (hget : route.method ≠ .get) :
    router.selectRoute method path = some route ↔ method = route.method ∧ path = route.pathPrefix := by
  obtain ⟨hmem,hunique⟩ := hsole
  constructor
  · intro h
    obtain ⟨hmethod,hpath⟩ := accepts_iff.mp (selectRoute_mem h).2
    rw [hexact] at hpath
    refine ⟨?_,by simpa [pathMatches] using hpath⟩
    rcases hmethod with hsame | ⟨-,hfallback⟩
    · exact hsame.symm
    · exact absurd hfallback hget
  · rintro ⟨rfl,rfl⟩
    have haccepts : accepts route.method route.pathPrefix route = true :=
      accepts_iff.mpr ⟨Or.inl rfl,by simp [pathMatches,hexact]⟩
    cases h : router.selectRoute route.method route.pathPrefix with
    | none =>
      have hrefused := selectRoute_eq_none.mp h route hmem
      rw [haccepts] at hrefused
      cases hrefused
    | some selected =>
      obtain ⟨hkind,hpath⟩ := selectRoute_exact h hmem hexact haccepts
      obtain ⟨hselected,hanswers⟩ := selectRoute_mem h
      have hmethod : selected.method = route.method := by
        rcases (accepts_iff.mp hanswers).1 with hsame | ⟨hhead,hfallback⟩
        · exact hsame
        · rw [selectRoute_eq_best] at h
          have hchosen := (chosen_of_best h).explicitHead hhead
            ⟨route,hmem,haccepts,hhead,hexact.trans hkind.symm,hpath.symm⟩
          exact hchosen.trans hhead.symm
      rw [hunique selected hselected (by rw [routeKey,routeKey,hmethod,hkind,hpath,hexact])]

end SpareNode.Http.HttpRouter
