import SpareNode.Http.Routing.HttpRouter
import SpareNode.Library.BestOfList

/-! # Selection by the set of routes

The loop of `select_route` keeps the best of the routes that answer a request, in an order in
which two of them are never equally good. The table may therefore be filled in any order, and the
loop that collects the allowed methods of a path finds those that the first loop would serve.
-/
namespace SpareNode.Http
open BestOfList

namespace HttpRouter
variable {H : Type} {method : HttpMethod} {path : Bytes}

/-- The two reasons for which a later route replaces the selected one. -/
def Better (candidate current : Route H) : Prop :=
  (candidate.method = .head ∧ current.method = .get ∧ candidate.wildcard = current.wildcard ∧
    candidate.pathPrefix.length = current.pathPrefix.length) ∨
  isMoreSpecific candidate.wildcard candidate.pathPrefix.length current.wildcard
    current.pathPrefix.length = true

instance : DecidableRel (Better (H := H)) := fun _ _ => inferInstanceAs (Decidable (_ ∨ _))

theorem isMoreSpecific_iff {w w' : Bool} {n n' : ℕ} :
    isMoreSpecific w n w' n' = true ↔ (w = false ∧ w' = true) ∨ (w = w' ∧ n' < n) := by
  cases w <;> cases w' <;> simp [isMoreSpecific]

instance : IsStrictOrder (Route H) Better where
  irrefl route h := by
    rcases h with ⟨hhead,hget,-⟩ | hmore
    · rw [hhead] at hget
      cases hget
    · rw [isMoreSpecific_self] at hmore
      cases hmore
  trans first second third h h' := by
    simp only [Better,isMoreSpecific_iff] at h h' ⊢
    rcases h with ⟨hhead,hget,hwildcard,hsize⟩ | h
    · rcases h' with ⟨hhead',-⟩ | h'
      · rw [hget] at hhead'
        cases hhead'
      · rw [hwildcard,hsize]
        exact Or.inr h'
    · right
      rcases h' with ⟨-,-,hwildcard,hsize⟩ | h'
      · rwa [← hwildcard,← hsize]
      · rcases h with ⟨hexact,hsecond⟩ | ⟨hsame,hless⟩ <;> rcases h' with ⟨hexact',hthird⟩ | ⟨hsame',hless'⟩
        · rw [hsecond] at hexact'
          cases hexact'
        · exact Or.inl ⟨hexact,hsame' ▸ hsecond⟩
        · exact Or.inl ⟨hsame.trans hexact',hthird⟩
        · exact Or.inr ⟨hsame.trans hsame',hless'.trans hless⟩

theorem selectStep_of_accepts {route : Route H} (h : accepts method path route = true)
    (selected : Option (Route H)) :
    selectStep method path selected route = List.argAux Better selected route := by
  cases selected with
  | none => simp [selectStep,h,List.argAux]
  | some current =>
    have hiff : (decide (route.method = .head) && decide (current.method = .get) &&
        decide (route.wildcard = current.wildcard) &&
        decide (route.pathPrefix.length = current.pathPrefix.length) ||
        isMoreSpecific route.wildcard route.pathPrefix.length current.wildcard
          current.pathPrefix.length) = true ↔ Better route current := by
      simp [Better,and_assoc]
    simp only [selectStep,h,List.argAux,Bool.not_true,Bool.false_eq_true,if_false]
    exact if_congr hiff rfl rfl

/-- The loop keeps the best of the routes that answer the request. -/
theorem selectRoute_eq_best (router : HttpRouter H) (method : HttpMethod) (path : Bytes) :
    router.selectRoute method path = best Better (router.routes.filter (accepts method path)) := by
  have hfold (routes : List (Route H)) (selected : Option (Route H)) :
      routes.foldl (selectStep method path) selected =
        (routes.filter (accepts method path)).foldl (List.argAux Better) selected := by
    induction routes generalizing selected with
    | nil => rfl
    | cons route routes ih =>
      cases haccepts : accepts method path route with
      | true =>
        rw [List.filter_cons_of_pos haccepts,List.foldl_cons,List.foldl_cons,
          selectStep_of_accepts haccepts,ih]
      | false =>
        have hskip : selectStep method path selected route = selected := by simp [selectStep,haccepts]
        rw [List.filter_cons_of_neg (by simp [haccepts]),List.foldl_cons,hskip,ih]
  exact hfold router.routes none

theorem selectRoute_eq_none {router : HttpRouter H} :
    router.selectRoute method path = none ↔ ∀ route ∈ router.routes, accepts method path route = false := by
  simp [selectRoute_eq_best]

def routeKey (route : Route H) : HttpMethod × Bool × Bytes := (route.method,route.wildcard,route.pathPrefix)

theorem pathMatches_append {wildcard : Bool} {pathPrefix : Bytes} (h : pathMatches wildcard pathPrefix path = true) :
    pathPrefix ++ capturedSuffix wildcard pathPrefix path = path := by
  cases wildcard with
  | true =>
    obtain ⟨suffix,rfl⟩ : pathPrefix <+: path := by simpa [pathMatches] using h
    simp [capturedSuffix]
  | false =>
    have hpath : path = pathPrefix := by simpa [pathMatches] using h
    simp [capturedSuffix,hpath]

/-- Two prefixes of one length that match a path are the same. -/
theorem pathMatches_prefix {w w' : Bool} {p p' : Bytes} (h : pathMatches w p path = true)
    (h' : pathMatches w' p' path = true) (hsize : p.length = p'.length) : p = p' := by
  have happend := (pathMatches_append h).trans (pathMatches_append h').symm
  exact (List.append_inj happend hsize).1

theorem accepts_iff {route : Route H} : accepts method path route = true ↔
    (route.method = method ∨ method = .head ∧ route.method = .get) ∧
      pathMatches route.wildcard route.pathPrefix path = true := by
  simp [accepts]

/-- Of two routes with different keys that answer a request one is better. -/
theorem routeKey_of_not_better {route other : Route H} (h : accepts method path route = true)
    (h' : accepts method path other = true) (hroute : ¬Better route other) (hother : ¬Better other route) :
    routeKey route = routeKey other := by
  obtain ⟨hmethod,hmatch⟩ := accepts_iff.mp h
  obtain ⟨hmethod',hmatch'⟩ := accepts_iff.mp h'
  simp only [Better,isMoreSpecific_iff,not_or,not_and] at hroute hother
  obtain ⟨htie,hexact,hlonger⟩ := hroute
  obtain ⟨htie',hexact',hlonger'⟩ := hother
  have hwildcard : route.wildcard = other.wildcard := by
    cases hw : route.wildcard <;> cases hw' : other.wildcard
    · rfl
    · exact absurd hw' (hexact hw)
    · exact absurd hw (hexact' hw')
    · rfl
  have hsize : route.pathPrefix.length = other.pathPrefix.length := by
    have hle := hlonger hwildcard
    have hge := hlonger' hwildcard.symm
    omega
  have hliteral := pathMatches_prefix hmatch hmatch' hsize
  have hsame : route.method = other.method := by
    rcases hmethod with hmethod | ⟨hhead,hget⟩ <;> rcases hmethod' with hmethod' | ⟨hhead',hget'⟩
    · exact hmethod.trans hmethod'.symm
    · exact absurd hsize (htie (hmethod.trans hhead') hget' hwildcard)
    · exact absurd hsize.symm (htie' (hmethod'.trans hhead) hget hwildcard.symm)
    · exact hget.trans hget'.symm
  rw [routeKey,routeKey,hsame,hwildcard,hliteral]

theorem unambiguous_accepted {routes : List (Route H)} (h : (routes.map routeKey).Nodup) :
    Unambiguous Better (routes.filter (accepts method path)) := by
  intro route hroute other hother hbetter hbetter'
  rw [List.mem_filter] at hroute hother
  exact List.inj_on_of_nodup_map h hroute.1 hother.1
    (routeKey_of_not_better hroute.2 hother.2 hbetter hbetter')

/-- The route that a set of routes gives a request. -/
structure Chosen (routes : List (Route H)) (method : HttpMethod) (path : Bytes) (route : Route H) : Prop where
  mem : route ∈ routes
  accepted : accepts method path route = true
  exactFirst : (∃ other ∈ routes, accepts method path other = true ∧ other.wildcard = false) →
    route.wildcard = false
  longest : route.wildcard = true → ∀ other ∈ routes, accepts method path other = true →
    other.pathPrefix.length ≤ route.pathPrefix.length
  explicitHead : method = .head → (∃ other ∈ routes, accepts method path other = true ∧
    other.method = .head ∧ other.wildcard = route.wildcard ∧ other.pathPrefix = route.pathPrefix) →
    route.method = .head
  whole : route.pathPrefix ++ capturedSuffix route.wildcard route.pathPrefix path = path

theorem chosen_of_best {routes : List (Route H)} {route : Route H}
    (h : best Better (routes.filter (accepts method path)) = some route) : Chosen routes method path route := by
  obtain ⟨hmem,haccepts⟩ := List.mem_filter.mp (best_mem h)
  have hmax (other : Route H) (hother : other ∈ routes) (hothers : accepts method path other = true) :
      ¬Better other route := best_max h (List.mem_filter.mpr ⟨hother,hothers⟩)
  have hexact : (∃ other ∈ routes, accepts method path other = true ∧ other.wildcard = false) →
      route.wildcard = false := by
    rintro ⟨other,hother,hothers,hkind⟩
    by_contra hwildcard
    exact hmax other hother hothers (Or.inr (isMoreSpecific_iff.mpr (Or.inl ⟨hkind,by simpa using hwildcard⟩)))
  refine ⟨hmem,haccepts,hexact,?_,?_,pathMatches_append (accepts_iff.mp haccepts).2⟩
  · intro hwildcard other hother hothers
    have hkind : other.wildcard = true := by
      by_contra hkind
      rw [hexact ⟨other,hother,hothers,by simpa using hkind⟩] at hwildcard
      cases hwildcard
    by_contra hlonger
    exact hmax other hother hothers
      (Or.inr (isMoreSpecific_iff.mpr (Or.inr ⟨hkind.trans hwildcard.symm,by omega⟩)))
  · rintro hmethod ⟨other,hother,hothers,hhead,hkind,hliteral⟩
    rcases (accepts_iff.mp haccepts).1 with hsame | ⟨-,hget⟩
    · exact hsame.trans hmethod
    · exact absurd (Or.inl ⟨hhead,hget,hkind,by rw [hliteral]⟩) (hmax other hother hothers)

end HttpRouter

/-- What one call of `register_route` asks for. -/
structure Registration (H : Type) where
  method : HttpMethod
  pattern : Bytes
  handler : H

namespace Registration
variable {H : Type}

/-- The route that `register_route` stores. -/
def route (entry : Registration H) : Route H :=
  let wildcard := (ascii "/*").isSuffixOf entry.pattern
  ⟨entry.method,if wildcard then entry.pattern.dropLast else entry.pattern,wildcard,entry.handler⟩

def key (entry : Registration H) : HttpMethod × Bytes := (entry.method,entry.pattern)

/-- Method and pattern can be read back from the stored route. -/
theorem key_eq_of_routeKey {entry other : Registration H}
    (h : HttpRouter.routeKey entry.route = HttpRouter.routeKey other.route) : entry.key = other.key := by
  simp only [HttpRouter.routeKey,route,Prod.mk.injEq] at h
  obtain ⟨hmethod,hwildcard,hliteral⟩ := h
  have hpattern : entry.pattern = other.pattern := by
    cases hsuffix : (ascii "/*").isSuffixOf entry.pattern with
    | false => simpa only [← hwildcard,hsuffix,Bool.false_eq_true,if_false] using hliteral
    | true =>
      simp only [← hwildcard,hsuffix,if_true] at hliteral
      rw [hsuffix] at hwildcard
      obtain ⟨front,hfront⟩ := List.isSuffixOf_iff_suffix.mp hsuffix
      obtain ⟨front',hfront'⟩ := List.isSuffixOf_iff_suffix.mp hwildcard.symm
      have hsplit (l : Bytes) : l ++ ascii "/*" = (l ++ ascii "/") ++ [char '*'] := by
        rw [List.append_assoc]
        rfl
      rw [← hfront,← hfront',hsplit,hsplit,List.dropLast_concat,List.dropLast_concat] at hliteral
      rw [← hfront,← hfront',hsplit,hsplit,hliteral]
  rw [key,key,hmethod,hpattern]

end Registration

/-- A set of distinct valid routes that one router can hold. -/
structure RouteTable (H : Type) where
  entries : List (Registration H)
  valid : ∀ entry ∈ entries, isValidPattern entry.pattern = true
  distinct : (entries.map Registration.key).Nodup
  bounded : entries.length ≤ HttpRouter.maximumRouteCount

namespace HttpRouter
variable {H : Type}

/-- One call of `register_route` after the other. -/
def registerAll (router : HttpRouter H) (order : List (Registration H)) :
    Except HttpRouteRegistrationErrorCode (HttpRouter H) :=
  order.foldlM (fun router entry => router.registerRoute entry.method entry.pattern (some entry.handler)) router

theorem registerRoute_ok {router : HttpRouter H} {entry : Registration H} (hvalid : isValidPattern entry.pattern = true)
    (hnew : routeKey entry.route ∉ router.routes.map routeKey) (hsize : router.routes.length < maximumRouteCount) :
    router.registerRoute entry.method entry.pattern (some entry.handler) = .ok ⟨router.routes ++ [entry.route]⟩ := by
  have hunknown : router.routes.any (fun route => route.method = entry.route.method &&
      route.wildcard = entry.route.wildcard && route.pathPrefix = entry.route.pathPrefix) = false := by
    by_contra hany
    rw [Bool.not_eq_false,List.any_eq_true] at hany
    obtain ⟨route,hroute,hkey⟩ := hany
    simp only [Bool.and_eq_true,decide_eq_true_eq,and_assoc] at hkey
    refine hnew (List.mem_map.mpr ⟨route,hroute,?_⟩)
    rw [routeKey,routeKey,hkey.1,hkey.2.1,hkey.2.2]
  unfold registerRoute
  rw [hvalid]
  simp only [Bool.not_true,Bool.false_eq_true,if_false]
  rw [if_neg (by simpa [Registration.route] using hunknown),if_neg (by omega)]
  rfl

theorem registerAll_ok {order : List (Registration H)} (router : HttpRouter H)
    (hvalid : ∀ entry ∈ order, isValidPattern entry.pattern = true)
    (hdistinct : (router.routes.map routeKey ++ order.map (fun entry => routeKey entry.route)).Nodup)
    (hsize : router.routes.length + order.length ≤ maximumRouteCount) :
    router.registerAll order = .ok ⟨router.routes ++ order.map Registration.route⟩ := by
  induction order generalizing router with
  | nil => simp [registerAll,pure,Except.pure]
  | cons entry order ih =>
    rw [List.length_cons] at hsize
    have hnew : routeKey entry.route ∉ router.routes.map routeKey := fun hmem =>
      (List.nodup_append.mp hdistinct).2.2 _ hmem _ (by simp) rfl
    have hfirst := registerRoute_ok (hvalid entry (by simp)) hnew (by omega)
    have hrest := ih ⟨router.routes ++ [entry.route]⟩ (fun other hother => hvalid other (by simp [hother]))
      (by simpa using hdistinct) (by simp only [List.length_append,List.length_singleton]; omega)
    rw [registerAll] at hrest ⊢
    rw [List.foldlM_cons,hfirst]
    simpa [bind,Except.bind] using hrest

/-- The table that an order of registering a set of routes leaves. -/
theorem registerAll_table (table : RouteTable H) {order : List (Registration H)} (h : order.Perm table.entries) :
    ({} : HttpRouter H).registerAll order = .ok ⟨order.map Registration.route⟩ ∧
      ((order.map Registration.route).map routeKey).Nodup := by
  have hkeys : (order.map (fun entry => routeKey entry.route)).Nodup := by
    apply (h.map _).nodup_iff.mpr
    apply (List.nodup_map_iff_inj_on (List.Nodup.of_map _ table.distinct)).mpr
    exact fun entry hentry other hother hkey => List.inj_on_of_nodup_map table.distinct hentry hother
      (Registration.key_eq_of_routeKey hkey)
  refine ⟨?_,by rwa [List.map_map]⟩
  have hall := registerAll_ok ({} : HttpRouter H) (fun entry hentry => table.valid entry (h.mem_iff.mp hentry))
    (by simpa using hkeys) (by simpa [h.length_eq] using table.bounded)
  simpa using hall

end HttpRouter
end SpareNode.Http
