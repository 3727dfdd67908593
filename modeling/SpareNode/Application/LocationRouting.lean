import SpareNode.Application.LocationRoutes
import SpareNode.Configuration.LocationAcceptance

/-! # Routing to the locations of a valid configuration

The validator and the router have their own checks of a path, and their own notions of what lies below it.
On the paths of a valid configuration they agree: every pattern is a legal one, no two routes are the same
and a request path is matched by the routes of the one location that it lies below.
-/
namespace SpareNode.Application
open Http Http.Api Http.HttpRouter Authentication SpareNode.Configuration

theorem isRoutePathCharacter_eq : ∀ b, isRoutePathCharacter b = isPathByte b := forall_byte (by decide +kernel)

theorem isAsciiHexadecimalDigit_eq : ∀ b, isAsciiHexadecimalDigit b = isPathHexadecimal b :=
  forall_byte (by decide +kernel)

theorem isValidRoutePath_eq (s : Bytes) : isValidRoutePath s = validLocationBytes s := by
  fun_induction isValidRoutePath s with
  | case1 => rfl
  | case2 rest ih => rw [validLocationBytes_slash,ih]
  | case3 high low rest _ ih =>
    rw [validLocationBytes_percent,ih,isAsciiHexadecimalDigit_eq,isAsciiHexadecimalDigit_eq]
  | case4 rest hshort _ =>
    rw [validLocationBytes_percent]
    split
    · rename_i high low rest
      exact absurd rfl (hshort high low rest)
    · rfl
  | case5 b rest hslash hpercent ih =>
    rw [isRoutePathCharacter_eq,ih]
    by_cases hb : isPathByte b = true
    · rw [hb,Bool.true_and,validLocationBytes_plain hb]
    · rw [Bool.eq_false_of_not_eq_true hb,Bool.false_and,validLocationBytes.eq_def]
      simp [hslash,hpercent,hb]

theorem isPathByte_ordinary : ∀ b, isPathByte b = true → b ≠ char '*' ∧ b ≠ char '?' ∧ b ≠ char '#' :=
  forall_byte (by decide +kernel)

theorem isPathHexadecimal_ordinary : ∀ b, isPathHexadecimal b = true → b ≠ char '*' ∧ b ≠ char '?' ∧ b ≠ char '#' :=
  forall_byte (by decide +kernel)

/-- No byte of a location path has a meaning in a pattern or in a request target. -/
theorem validLocationBytes_ordinary {s : Bytes} (h : validLocationBytes s = true) :
    ∀ b ∈ s, b ≠ char '*' ∧ b ≠ char '?' ∧ b ≠ char '#' := by
  fun_induction validLocationBytes s with
  | case1 => nofun
  | case2 b rest hb ih =>
    refine List.forall_mem_cons.mpr ⟨?_,ih h⟩
    rcases Bool.or_eq_true_iff.mp hb with hslash | hplain
    · rw [decide_eq_true_eq.mp hslash]
      decide
    · exact isPathByte_ordinary b hplain
  | case3 => cases h
  | case4 b hb hpercent high low rest ih =>
    rw [Bool.and_eq_true,Bool.and_eq_true] at h
    rw [not_not.mp hpercent]
    exact List.forall_mem_cons.mpr ⟨by decide,List.forall_mem_cons.mpr ⟨isPathHexadecimal_ordinary high h.1.1,
      List.forall_mem_cons.mpr ⟨isPathHexadecimal_ordinary low h.1.2,ih h.2⟩⟩⟩
  | case5 => cases h

theorem validLocationBytes_concat {s : Bytes} (h : validLocationBytes s = true) :
    validLocationBytes (s ++ ascii "/") = true := by
  fun_induction validLocationBytes s with
  | case1 => decide
  | case2 b rest hb ih =>
    rw [List.cons_append,validLocationBytes.eq_def]
    simp only [hb,if_true]
    exact ih h
  | case3 => cases h
  | case4 b hb hpercent high low rest ih =>
    rw [Bool.and_eq_true] at h
    rw [not_not.mp hpercent,List.cons_append,List.cons_append,List.cons_append,validLocationBytes_percent]
    exact Bool.and_eq_true_iff.mpr ⟨h.1,ih h.2⟩
  | case5 => cases h

theorem isValidPattern_exact {s : Bytes} (hhead : s.head? = some (char '/')) (h : validLocationBytes s = true) :
    isValidPattern s = true := by
  have hordinary := validLocationBytes_ordinary h
  have hstar : find (char '*') s = none := find_eq_none_iff.mpr fun hmem => (hordinary _ hmem).1 rfl
  have hquery : char '?' ∉ s := fun hmem => (hordinary _ hmem).2.1 rfl
  have hfragment : char '#' ∉ s := fun hmem => (hordinary _ hmem).2.2 rfl
  unfold isValidPattern
  rw [if_neg (by simp [hhead,hquery,hfragment]),hstar]
  exact (isValidRoutePath_eq s).trans h

theorem isValidPattern_nested {s : Bytes} (hhead : (s ++ ascii "/").head? = some (char '/'))
    (h : validLocationBytes s = true) : isValidPattern (s ++ ascii "/*") = true := by
  have hslash := validLocationBytes_concat h
  have hordinary := validLocationBytes_ordinary hslash
  have hsplit : s ++ ascii "/*" = (s ++ ascii "/") ++ char '*' :: [] := by
    rw [List.append_assoc]
    rfl
  have hstar : find (char '*') (s ++ ascii "/*") = some (s ++ ascii "/").length := by
    rw [hsplit]
    exact find_append [] fun hmem => (hordinary _ hmem).1 rfl
  have hquery : char '?' ∉ s ++ ascii "/*" := by
    rw [hsplit,List.mem_append,not_or]
    exact ⟨fun hmem => (hordinary _ hmem).2.1 rfl,by decide⟩
  have hfragment : char '#' ∉ s ++ ascii "/*" := by
    rw [hsplit,List.mem_append,not_or]
    exact ⟨fun hmem => (hordinary _ hmem).2.2 rfl,by decide⟩
  have hfirst : (s ++ ascii "/*").head? = some (char '/') := by
    rw [hsplit,List.head?_append,hhead]
    rfl
  have hsize : (s ++ ascii "/").length = s.length + 1 := by
    rw [List.length_append]
    rfl
  have hlast : (s ++ ascii "/*")[(s ++ ascii "/").length - 1]? = some (char '/') := by
    rw [hsize,Nat.add_sub_cancel,List.getElem?_append_right le_rfl,Nat.sub_self]
    rfl
  unfold isValidPattern
  rw [if_neg (by simp [hfirst,hquery,hfragment]),hstar]
  dsimp only
  rw [if_neg,hsplit,List.take_left',isValidRoutePath_eq]
  · exact hslash
  · rfl
  · rw [hlast,hsize,List.length_append]
    simp [show (ascii "/*").length = 2 from rfl]

/-- A location path without the slash that ends it. -/
def trunk (apiPath : Bytes) : Bytes := if apiPath = ascii "/" then [] else apiPath

theorem nestedPath_eq (apiPath : Bytes) : nestedPath apiPath = trunk apiPath ++ ascii "/*" := by
  unfold nestedPath trunk
  split <;> rfl

section Paths
variable {apiPath other path : Bytes}

theorem locationPath_head (h : LocationPath apiPath) : apiPath.head? = some (char '/') := by
  rcases h with rfl | ⟨rest,rfl,-⟩ <;> rfl

theorem locationPath_bytes (h : LocationPath apiPath) : validLocationBytes apiPath = true := by
  rcases h with rfl | ⟨rest,rfl,hsegments⟩
  · decide
  · rw [validLocationBytes_slash]
    exact ((validLocationSegments_iff rest hsegments.last_ne.1 hsegments.last_ne.2).mpr hsegments).1

theorem locationPath_star (h : LocationPath apiPath) : char '*' ∉ apiPath :=
  fun hmem => (validLocationBytes_ordinary (locationPath_bytes h) _ hmem).1 rfl

theorem exactPattern_valid (h : LocationPath apiPath) : isValidPattern apiPath = true :=
  isValidPattern_exact (locationPath_head h) (locationPath_bytes h)

theorem nestedPattern_valid (h : LocationPath apiPath) : isValidPattern (nestedPath apiPath) = true := by
  rw [nestedPath_eq,trunk]
  split
  · decide +kernel
  · refine isValidPattern_nested ?_ (locationPath_bytes h)
    rw [List.head?_append,locationPath_head h]
    rfl

theorem star_mem_nestedPath (apiPath : Bytes) : char '*' ∈ nestedPath apiPath := by
  rw [nestedPath_eq]
  exact List.mem_append_right _ (by decide)

theorem trunk_injective (h : LocationPath apiPath) (hother : LocationPath other) (hsame : trunk apiPath = trunk other) :
    apiPath = other := by
  unfold trunk at hsame
  split at hsame
  · rename_i hroot
    split at hsame
    · rename_i hroot'
      rw [hroot,hroot']
    · rw [← hsame] at hother
      cases locationPath_head hother
  · split at hsame
    · rw [hsame] at h
      cases locationPath_head h
    · exact hsame

/-- The router's notion of a path below a location is that of the validator. -/
theorem nested_of_below (h : path = apiPath ∨ ∃ rest, path = trunk apiPath ++ char '/' :: rest) :
    Nested apiPath path := by
  rcases h with rfl | ⟨rest,rfl⟩
  · exact Or.inl rfl
  · unfold trunk
    split
    · rename_i hroot
      exact Or.inr (Or.inl hroot)
    · exact Or.inr (Or.inr ⟨rest,rfl⟩)

theorem below_of_nested (hhead : path.head? = some (char '/')) (h : Nested apiPath path) :
    path = apiPath ∨ ∃ rest, path = trunk apiPath ++ char '/' :: rest := by
  by_cases hroot : apiPath = ascii "/"
  · obtain ⟨rest,rfl⟩ := List.head?_eq_some_iff.mp hhead
    exact Or.inr ⟨rest,by rw [trunk,if_pos hroot,List.nil_append]⟩
  · rcases h with hsame | hroot' | ⟨rest,hrest⟩
    · exact Or.inl hsame
    · exact absurd hroot' hroot
    · exact Or.inr ⟨rest,by rw [trunk,if_neg hroot,hrest]⟩

/-- Two locations above one path lie one below the other. -/
theorem nested_comparable (h : Nested apiPath path) (hother : Nested other path) :
    Nested apiPath other ∨ Nested other apiPath := by
  rcases h with rfl | hroot | ⟨rest,hrest⟩
  · exact Or.inr hother
  · exact Or.inl (Or.inr (Or.inl hroot))
  · rcases hother with hsame | hroot' | ⟨rest',hrest'⟩
    · rw [hsame] at hrest
      exact Or.inl (Or.inr (Or.inr ⟨rest,hrest⟩))
    · exact Or.inr (Or.inr (Or.inl hroot'))
    · rw [hrest'] at hrest
      rcases List.append_eq_append_iff.mp hrest with ⟨cut,rfl,hcut⟩ | ⟨cut,rfl,hcut⟩
      · cases cut with
        | nil => exact Or.inl (Or.inl (List.append_nil _).symm)
        | cons b cut =>
          obtain ⟨rfl,-⟩ := List.cons.inj hcut
          exact Or.inr (Or.inr (Or.inr ⟨cut,rfl⟩))
      · cases cut with
        | nil => exact Or.inl (Or.inl (List.append_nil _))
        | cons b cut =>
          obtain ⟨rfl,-⟩ := List.cons.inj hcut
          exact Or.inl (Or.inr (Or.inr ⟨cut,rfl⟩))
end Paths

/-- The keys of the eight routes of a location. -/
def locationKeys (apiPath : Bytes) : List (HttpMethod × Bytes) :=
  operations.flatMap fun operation =>
    [(operationMethod operation,apiPath),(operationMethod operation,nestedPath apiPath)]

theorem mem_locationKeys {apiPath : Bytes} {key : HttpMethod × Bytes} : key ∈ locationKeys apiPath ↔
    (∃ operation, key.1 = operationMethod operation) ∧ (key.2 = apiPath ∨ key.2 = nestedPath apiPath) := by
  have hall (operation : FilesystemOperation) : operation ∈ operations := by cases operation <;> decide
  simp only [locationKeys,List.mem_flatMap,List.mem_cons,List.not_mem_nil,or_false,Prod.ext_iff,hall,true_and,
    ← and_or_left,exists_and_right]

theorem locationKeys_nodup {apiPath : Bytes} (h : LocationPath apiPath) : (locationKeys apiPath).Nodup := by
  have hne : apiPath ≠ nestedPath apiPath := fun hsame => locationPath_star h (hsame ▸ star_mem_nestedPath apiPath)
  simp [locationKeys,operations,operationMethod,hne,hne.symm]

theorem locationKeys_disjoint {apiPath other : Bytes} (h : LocationPath apiPath) (hother : LocationPath other)
    (hne : apiPath ≠ other) : (locationKeys apiPath).Disjoint (locationKeys other) := by
  intro key hkey hkey'
  rcases (mem_locationKeys.mp hkey).2 with hexact | hnested <;>
    rcases (mem_locationKeys.mp hkey').2 with hexact' | hnested'
  · exact hne (hexact.symm.trans hexact')
  · exact locationPath_star h (hexact.symm.trans hnested' ▸ star_mem_nestedPath other)
  · exact locationPath_star hother (hexact'.symm.trans hnested ▸ star_mem_nestedPath apiPath)
  · have hsame := hnested.symm.trans hnested'
    rw [nestedPath_eq,nestedPath_eq] at hsame
    exact hne (trunk_injective h hother (List.append_cancel_right hsame))

def authenticationKeys : List (HttpMethod × Bytes) := [(.post,loginPath),(.post,logoutPath)]

theorem authenticationKeys_disjoint {apiPath : Bytes} : authenticationKeys.Disjoint (locationKeys apiPath) ↔
    apiPath ≠ loginPath ∧ apiPath ≠ logoutPath := by
  have hlogin : char '*' ∉ loginPath := by decide
  have hlogout : char '*' ∉ logoutPath := by decide
  have hpost (path : Bytes) : (HttpMethod.post,path) ∈ locationKeys apiPath ↔
      path = apiPath ∨ path = nestedPath apiPath :=
    mem_locationKeys.trans (and_iff_right ⟨.directoryCreation,rfl⟩)
  have hnested (path : Bytes) (h : char '*' ∉ path) : path ≠ nestedPath apiPath := fun hsame =>
    h (hsame ▸ star_mem_nestedPath apiPath)
  rw [authenticationKeys,List.disjoint_cons_left,List.disjoint_cons_left,hpost,hpost,
    or_iff_left (hnested _ hlogin),or_iff_left (hnested _ hlogout),eq_comm (a := loginPath),eq_comm (a := logoutPath)]
  exact and_congr_right' (and_iff_left (List.disjoint_nil_left _))

/-- No route is registered twice, unless a location takes the place of an authentication route. -/
theorem serverKeys_nodup {paths : List Bytes} (hpaths : ∀ apiPath ∈ paths, LocationPath apiPath)
    (hdisjoint : Configuration.Disjoint paths) : (authenticationKeys ++ paths.flatMap locationKeys).Nodup ↔
      ∀ apiPath ∈ paths, apiPath ≠ loginPath ∧ apiPath ≠ logoutPath := by
  have hlocations : (paths.flatMap locationKeys).Nodup := by
    refine List.nodup_flatMap.mpr ⟨fun apiPath hmem => locationKeys_nodup (hpaths apiPath hmem),?_⟩
    apply hdisjoint.imp_of_mem
    intro apiPath other hmem hmem' hapart
    apply locationKeys_disjoint (hpaths apiPath hmem) (hpaths other hmem')
    rintro rfl
    exact hapart.1 (Or.inl rfl)
  have hauthentication : authenticationKeys.Nodup := by decide
  have hapart : authenticationKeys.Disjoint (paths.flatMap locationKeys) ↔
      ∀ apiPath ∈ paths, authenticationKeys.Disjoint (locationKeys apiPath) := by
    constructor
    · intro h apiPath hmem key hkey hkey'
      exact h hkey (List.mem_flatMap.mpr ⟨apiPath,hmem,hkey'⟩)
    · intro h key hkey hkey'
      obtain ⟨apiPath,hmem,hkey'⟩ := List.mem_flatMap.mp hkey'
      exact h apiPath hmem hkey hkey'
  rw [List.nodup_append',and_iff_right hauthentication,and_iff_right hlocations,hapart]
  exact forall₂_congr fun apiPath _ => authenticationKeys_disjoint

section Table
variable {σ : Type} (decorator : Option (ProtectedRouteDecorator σ)) (handlers : AuthenticationHandlers σ)
  (locations : List (FilesystemApiLocation σ))

theorem serverRegistrations_keys : (serverRegistrations decorator handlers locations).map Registration.key =
    authenticationKeys ++ (locations.map (·.apiPath)).flatMap locationKeys := by
  rw [serverRegistrations,List.map_append,List.map_flatMap,List.flatMap_map]
  rfl

theorem serverRegistrations_length : (serverRegistrations decorator handlers locations).length =
    8 * locations.length + 2 := by
  have hlocation (location : FilesystemApiLocation σ) : (locationRegistrations decorator location).length = 8 := rfl
  rw [serverRegistrations,List.length_append,List.length_flatMap]
  simp only [hlocation,List.map_const',List.sum_replicate,smul_eq_mul]
  rw [Nat.mul_comm,Nat.add_comm]
  rfl

variable {locations}

theorem serverRegistrations_valid (h : ∀ location ∈ locations, LocationPath location.apiPath) :
    ∀ entry ∈ serverRegistrations decorator handlers locations, isValidPattern entry.pattern = true := by
  intro entry hentry
  rcases List.mem_append.mp hentry with hpublic | hprotected
  · have hlogin : isValidPattern loginPath = true := by decide +kernel
    have hlogout : isValidPattern logoutPath = true := by decide +kernel
    rcases List.mem_cons.mp hpublic with rfl | hpublic
    · exact hlogin
    · rw [List.mem_singleton.mp hpublic]
      exact hlogout
  · obtain ⟨location,hlocation,hentry⟩ := List.mem_flatMap.mp hprotected
    obtain ⟨operation,-,hentry⟩ := List.mem_flatMap.mp hentry
    rcases List.mem_cons.mp hentry with rfl | hentry
    · exact exactPattern_valid (h location hlocation)
    · rw [List.mem_singleton.mp hentry]
      exact nestedPattern_valid (h location hlocation)

/-- The registration succeeds when there is room and no location is in the way of the authentication, and its
router holds the table. -/
theorem registerServerRoutes_iff (hne : locations ≠ []) (hpaths : ∀ location ∈ locations, LocationPath location.apiPath)
    (hdisjoint : Configuration.Disjoint (locations.map (·.apiPath))) (router : HttpRouter (HttpRouteHandler σ)) :
    (registerServerRoutes { protectedRouteDecorator := decorator } (some handlers) locations).map (·.build) =
        some router ↔
      (8 * locations.length + 2 ≤ maximumRouteCount ∧
        ∀ location ∈ locations, location.apiPath ≠ loginPath ∧ location.apiPath ≠ logoutPath) ∧
      router = ⟨(serverRegistrations decorator handlers locations).map Registration.route⟩ := by
  have hserver : Asks { protectedRouteDecorator := decorator } _ _ := registerServerRoutes_asks handlers hne
  have hasks := hserver.router
  have hkeys := serverKeys_nodup (by simpa using hpaths) hdisjoint
  rw [List.forall_mem_map] at hkeys
  have hoption {ε α : Type} (x : Except ε α) (a : α) : x.toOption = some a ↔ x = .ok a := by
    cases x <;> simp [Except.toOption]
  unfold ApiRouterBuilder.build
  rw [hasks,hoption,registerAll_iff,serverRegistrations_keys,serverRegistrations_length,hkeys,
    and_iff_right (serverRegistrations_valid decorator handlers hpaths),and_comm (b := _ ≤ _)]
end Table

section Matching
variable {σ : Type} (decorator : Option (ProtectedRouteDecorator σ)) (location : FilesystemApiLocation σ)

def locationRoutes : List (Route (HttpRouteHandler σ)) :=
  (locationRegistrations decorator location).map Registration.route

def exactRoute (operation : FilesystemOperation) : Route (HttpRouteHandler σ) :=
  ⟨operationMethod operation,location.apiPath,false,protect decorator (exactHandler location operation)⟩

def nestedRoute (operation : FilesystemOperation) : Route (HttpRouteHandler σ) :=
  ⟨operationMethod operation,trunk location.apiPath ++ ascii "/",true,
    protect decorator (nestedHandler location operation)⟩

/-- One of the routes of the location matches the path. -/
def Matched (path : Bytes) : Prop :=
  ∃ route ∈ locationRoutes decorator location, pathMatches route.wildcard route.pathPrefix path = true

variable {decorator location} {path : Bytes}

theorem mem_locationRoutes (h : LocationPath location.apiPath) {route : Route (HttpRouteHandler σ)} :
    route ∈ locationRoutes decorator location ↔
      ∃ operation, route = exactRoute decorator location operation ∨ route = nestedRoute decorator location operation := by
  have hall (operation : FilesystemOperation) : operation ∈ operations := by cases operation <;> decide
  have hplain : (ascii "/*").isSuffixOf location.apiPath = false := by
    rw [← Bool.not_eq_true,List.isSuffixOf_iff_suffix]
    rintro ⟨front,hfront⟩
    exact locationPath_star h (hfront ▸ List.mem_append_right _ (by decide))
  have hsuffix : (ascii "/*").isSuffixOf (nestedPath location.apiPath) = true := by
    rw [nestedPath_eq,List.isSuffixOf_iff_suffix]
    exact List.suffix_append _ _
  have hcut : (nestedPath location.apiPath).dropLast = trunk location.apiPath ++ ascii "/" := by
    have hsplit : ascii "/*" = ascii "/" ++ [char '*'] := rfl
    rw [nestedPath_eq,hsplit,← List.append_assoc,List.dropLast_concat]
  have hexact (operation : FilesystemOperation) : Registration.route ⟨operationMethod operation,location.apiPath,
      protect decorator (exactHandler location operation)⟩ = exactRoute decorator location operation := by
    simp only [Registration.route,hplain,Bool.false_eq_true,if_false,exactRoute]
  have hnested (operation : FilesystemOperation) : Registration.route ⟨operationMethod operation,
      nestedPath location.apiPath,protect decorator (nestedHandler location operation)⟩ =
        nestedRoute decorator location operation := by
    simp only [Registration.route,hsuffix,if_true,hcut,nestedRoute]
  rw [locationRoutes,locationRegistrations,List.map_flatMap,List.mem_flatMap]
  simp only [operationRegistrations,List.map_cons,List.map_nil,hexact,hnested,List.mem_cons,List.not_mem_nil,or_false,
    hall,true_and]

theorem pathMatches_exactRoute {operation : FilesystemOperation} : pathMatches
    (exactRoute decorator location operation).wildcard (exactRoute decorator location operation).pathPrefix path = true ↔
      path = location.apiPath := by
  simp only [exactRoute,pathMatches,Bool.false_eq_true,if_false]
  exact decide_eq_true_iff

theorem pathMatches_nestedRoute {operation : FilesystemOperation} : pathMatches
    (nestedRoute decorator location operation).wildcard (nestedRoute decorator location operation).pathPrefix path = true ↔
      ∃ rest, path = trunk location.apiPath ++ char '/' :: rest := by
  have hslash (rest : Bytes) : trunk location.apiPath ++ ascii "/" ++ rest = trunk location.apiPath ++ char '/' :: rest :=
    List.append_assoc _ _ _
  simp only [nestedRoute,pathMatches,if_true,List.isPrefixOf_iff_prefix]
  constructor
  · rintro ⟨rest,hrest⟩
    exact ⟨rest,hrest.symm.trans (hslash rest)⟩
  · rintro ⟨rest,hrest⟩
    exact ⟨rest,(hslash rest).trans hrest.symm⟩

theorem matched_iff (h : LocationPath location.apiPath) : Matched decorator location path ↔
    path = location.apiPath ∨ ∃ rest, path = trunk location.apiPath ++ char '/' :: rest := by
  constructor
  · rintro ⟨route,hroute,hmatch⟩
    obtain ⟨operation,rfl | rfl⟩ := (mem_locationRoutes h).mp hroute
    · exact Or.inl (pathMatches_exactRoute.mp hmatch)
    · exact Or.inr (pathMatches_nestedRoute.mp hmatch)
  · rintro (hexact | hnested)
    · exact ⟨exactRoute decorator location .resource,(mem_locationRoutes h).mpr ⟨_,Or.inl rfl⟩,
        pathMatches_exactRoute.mpr hexact⟩
    · exact ⟨nestedRoute decorator location .resource,(mem_locationRoutes h).mpr ⟨_,Or.inr rfl⟩,
        pathMatches_nestedRoute.mpr hnested⟩

theorem matched_nested (h : LocationPath location.apiPath) (hmatched : Matched decorator location path) :
    Nested location.apiPath path :=
  nested_of_below ((matched_iff h).mp hmatched)

/-- The part of a path that is left below a location. -/
def Remaining (apiPath path suffix : Bytes) : Prop :=
  if path = apiPath then suffix = []
  else if apiPath = ascii "/" then path = char '/' :: suffix
  else path = apiPath ++ char '/' :: suffix

theorem remaining_captured {operation : FilesystemOperation} (hne : path ≠ location.apiPath)
    (hmatch : pathMatches (nestedRoute decorator location operation).wildcard
      (nestedRoute decorator location operation).pathPrefix path = true) :
    Remaining location.apiPath path (capturedSuffix (nestedRoute decorator location operation).wildcard
      (nestedRoute decorator location operation).pathPrefix path) := by
  have hwhole := pathMatches_append hmatch
  generalize capturedSuffix (nestedRoute decorator location operation).wildcard
    (nestedRoute decorator location operation).pathPrefix path = suffix at hwhole ⊢
  rw [Remaining,if_neg hne,← hwhole,nestedRoute,trunk]
  split
  · rfl
  · exact List.append_assoc _ _ _
end Matching

/-- The operation that a request with the method asks for. -/
def Performs (method : HttpMethod) (operation : FilesystemOperation) : Prop :=
  method = operationMethod operation ∨ method = .head ∧ operation = .resource

theorem performs_unique {method : HttpMethod} {operation other : FilesystemOperation} (h : Performs method operation)
    (hother : Performs method other) : operation = other := by
  unfold Performs at h hother
  cases operation <;> cases other <;> cases method <;> simp_all [operationMethod]

theorem performs_iff {method : HttpMethod} {operation : FilesystemOperation} : Performs method operation ↔
    operationMethod operation = method ∨ method = .head ∧ operationMethod operation = .get := by
  unfold Performs
  cases operation <;> simp [operationMethod,eq_comm]

/-- A request of the authentication, whatever the locations are. -/
def Authenticates (method : HttpMethod) (path : Bytes) : Prop :=
  method = .post ∧ (path = loginPath ∨ path = logoutPath)

section Dispatch
variable {σ : Type} (decorator : Option (ProtectedRouteDecorator σ)) (handlers : AuthenticationHandlers σ)
  (locations : List (FilesystemApiLocation σ))

def serverRouter : HttpRouter (HttpRouteHandler σ) :=
  ⟨(serverRegistrations decorator handlers locations).map Registration.route⟩

variable {decorator handlers locations} {method : HttpMethod} {path : Bytes}

theorem mem_serverRouter {route : Route (HttpRouteHandler σ)} :
    route ∈ (serverRouter decorator handlers locations).routes ↔
      route ∈ (authenticationRegistrations handlers).map Registration.route ∨
        ∃ location ∈ locations, route ∈ locationRoutes decorator location := by
  rw [serverRouter,serverRegistrations,List.map_append,List.mem_append,List.map_flatMap,List.mem_flatMap]
  rfl

theorem authenticates_of_accepts {route : Route (HttpRouteHandler σ)}
    (hroute : route ∈ (authenticationRegistrations handlers).map Registration.route)
    (haccepts : accepts method path route = true) : Authenticates method path := by
  have hlogin : (ascii "/*").isSuffixOf loginPath = false := by decide
  have hlogout : (ascii "/*").isSuffixOf logoutPath = false := by decide
  have hpost : HttpMethod.post ≠ .get := by decide
  rw [accepts_iff] at haccepts
  simp only [authenticationRegistrations,List.map_cons,List.map_nil,Registration.route,hlogin,hlogout,
    Bool.false_eq_true,if_false,List.mem_cons,List.not_mem_nil,or_false] at hroute
  rcases hroute with rfl | rfl
  · simp only [pathMatches,Bool.false_eq_true,if_false,decide_eq_true_eq,hpost,and_false,or_false] at haccepts
    exact ⟨haccepts.1.symm,Or.inl haccepts.2⟩
  · simp only [pathMatches,Bool.false_eq_true,if_false,decide_eq_true_eq,hpost,and_false,or_false] at haccepts
    exact ⟨haccepts.1.symm,Or.inr haccepts.2⟩

theorem nested_unique (hdisjoint : Configuration.Disjoint (locations.map (·.apiPath)))
    {location other : FilesystemApiLocation σ} (hlocation : location ∈ locations) (hother : other ∈ locations)
    (h : Nested location.apiPath path) (h' : Nested other.apiPath path) : location = other := by
  by_contra hne
  have hsymm : Std.Symm fun a b : FilesystemApiLocation σ =>
      ¬Nested a.apiPath b.apiPath ∧ ¬Nested b.apiPath a.apiPath := ⟨fun _ _ hab => ⟨hab.2,hab.1⟩⟩
  have happart := (List.pairwise_map.mp hdisjoint).forall hlocation hother hne
  rcases nested_comparable h h' with hnested | hnested
  · exact happart.1 hnested
  · exact happart.2 hnested

/-- The selected route is the exact one on the path of the location, and else the nested one. -/
theorem selectRoute_location (hpaths : ∀ location ∈ locations, LocationPath location.apiPath)
    (hdisjoint : Configuration.Disjoint (locations.map (·.apiPath))) {location : FilesystemApiLocation σ}
    (hlocation : location ∈ locations) {operation : FilesystemOperation} (hperforms : Performs method operation)
    (hmatched : Matched decorator location path) (hpublic : ¬Authenticates method path) :
    ∃ route, (serverRouter decorator handlers locations).selectRoute method path = some route ∧
      pathMatches route.wildcard route.pathPrefix path = true ∧
      ((path = location.apiPath ∧ route = exactRoute decorator location operation) ∨
        path ≠ location.apiPath ∧ route = nestedRoute decorator location operation) := by
  have hpath := hpaths location hlocation
  have hstored {route : Route (HttpRouteHandler σ)} (h : route = exactRoute decorator location operation ∨
      route = nestedRoute decorator location operation) : route ∈ (serverRouter decorator handlers locations).routes :=
    mem_serverRouter.mpr (Or.inr ⟨location,hlocation,(mem_locationRoutes hpath).mpr ⟨operation,h⟩⟩)
  have hmethod := performs_iff.mp hperforms
  cases hselect : (serverRouter decorator handlers locations).selectRoute method path with
  | none =>
    have hnone := selectRoute_eq_none.mp hselect
    rcases (matched_iff hpath).mp hmatched with hexact | hnested
    · have haccepts : accepts method path (exactRoute decorator location operation) = true :=
        accepts_iff.mpr ⟨hmethod,pathMatches_exactRoute.mpr hexact⟩
      rw [hnone _ (hstored (Or.inl rfl))] at haccepts
      cases haccepts
    · have haccepts : accepts method path (nestedRoute decorator location operation) = true :=
        accepts_iff.mpr ⟨hmethod,pathMatches_nestedRoute.mpr hnested⟩
      rw [hnone _ (hstored (Or.inr rfl))] at haccepts
      cases haccepts
  | some route =>
    obtain ⟨hmem,haccepts⟩ := selectRoute_mem hselect
    obtain ⟨hasked,hmatch⟩ := accepts_iff.mp haccepts
    refine ⟨route,rfl,hmatch,?_⟩
    rcases mem_serverRouter.mp hmem with hauthentication | ⟨other,hother,hroute⟩
    · exact absurd (authenticates_of_accepts hauthentication haccepts) hpublic
    · obtain rfl : location = other := nested_unique hdisjoint hlocation hother (matched_nested hpath hmatched)
        (matched_nested (hpaths other hother) ⟨route,hroute,hmatch⟩)
      obtain ⟨found,hfound⟩ := (mem_locationRoutes hpath).mp hroute
      obtain rfl : found = operation := by
        refine performs_unique (performs_iff.mpr ?_) hperforms
        rcases hfound with rfl | rfl <;> exact hasked
      rcases hfound with rfl | rfl
      · exact Or.inl ⟨pathMatches_exactRoute.mp hmatch,rfl⟩
      · refine Or.inr ⟨?_,rfl⟩
        intro hsame
        have hexact := selectRoute_exact hselect (hstored (Or.inl rfl)) rfl
          (accepts_iff.mpr ⟨hmethod,pathMatches_exactRoute.mpr hsame⟩)
        cases hexact.1

/-- How a router serves the locations beside the authentication routes: which routes match a path, and what is
handed to the handler of the location. -/
structure ServesLocations (router : HttpRouter (HttpRouteHandler σ)) (decorator : Option (ProtectedRouteDecorator σ))
    (handlers : AuthenticationHandlers σ) (locations : List (FilesystemApiLocation σ)) : Prop where
  table : router.routes = (authenticationRegistrations handlers).map Registration.route ++
    locations.flatMap (locationRoutes decorator)
  matched : ∀ path, path.head? = some (char '/') → ∀ location ∈ locations,
    (Matched decorator location path ↔ Nested location.apiPath path)
  unique : ∀ path, locations.Pairwise fun a b => ¬(Matched decorator a path ∧ Matched decorator b path)
  dispatched : ∀ date request operation, ∀ location ∈ locations,
    Matched decorator location (requestPath request.target) → Performs request.method operation →
    ¬Authenticates request.method (requestPath request.target) →
    ∃ handler ∈ [exactHandler location operation,nestedHandler location operation], ∃ suffix,
      Remaining location.apiPath (requestPath request.target) suffix ∧
      router.dispatch date request = protect decorator handler request ⟨suffix⟩ ∧
      ∀ request', handler request' ⟨suffix⟩ = location.handle operation request' suffix

theorem serverRouter_serves (hpaths : ∀ location ∈ locations, LocationPath location.apiPath)
    (hdisjoint : Configuration.Disjoint (locations.map (·.apiPath))) :
    ServesLocations (serverRouter decorator handlers locations) decorator handlers locations := by
  constructor
  · rw [serverRouter,serverRegistrations,List.map_append,List.map_flatMap]
    rfl
  · intro path hhead location hlocation
    have hpath := hpaths location hlocation
    exact ⟨matched_nested hpath,fun h => (matched_iff hpath).mpr (below_of_nested hhead h)⟩
  · intro path
    apply (List.pairwise_map.mp hdisjoint).imp_of_mem
    rintro a b ha hb happart ⟨hmatched,hmatched'⟩
    rcases nested_comparable (matched_nested (hpaths a ha) hmatched) (matched_nested (hpaths b hb) hmatched') with
      hnested | hnested
    · exact happart.1 hnested
    · exact happart.2 hnested
  · intro date request operation location hlocation hmatched hperforms hpublic
    have hserver : ¬(request.method = .options ∧ request.target = ascii "*") := by
      rintro ⟨hmethod,-⟩
      rw [hmethod] at hperforms
      cases operation <;> simp [Performs,operationMethod] at hperforms
    obtain ⟨route,hselect,hmatch,hroute⟩ : ∃ route, (serverRouter decorator handlers locations).selectRoute
        request.method (requestPath request.target) = some route ∧ _ :=
      selectRoute_location hpaths hdisjoint hlocation hperforms hmatched hpublic
    have hdispatch : (serverRouter decorator handlers locations).dispatch date request = route.handler request
        ⟨capturedSuffix route.wildcard route.pathPrefix (requestPath request.target)⟩ := by
      simp only [HttpRouter.dispatch,if_neg hserver,hselect]
    rcases hroute with ⟨hsame,rfl⟩ | ⟨hne,rfl⟩
    · exact ⟨exactHandler location operation,List.mem_cons_self,[],by rw [Remaining,if_pos hsame],hdispatch,fun _ => rfl⟩
    · exact ⟨nestedHandler location operation,List.mem_cons_of_mem _ List.mem_cons_self,_,
        remaining_captured hne hmatch,hdispatch,fun _ => rfl⟩
end Dispatch

/-- The settings of an accepted configuration have its location paths. -/
theorem validate_paths {configuration : ParsedConfiguration} {accepted : ValidatedConfiguration}
    {settings : ServerSettings} (h : validate configuration = .ok accepted) (hsettings : settings ∈ accepted.settings.servers) :
    settings.locations ≠ [] ∧ (∀ location ∈ settings.locations, LocationPath location.apiPath) ∧
      Configuration.Disjoint (settings.locations.map (·.apiPath)) := by
  have hvalid := (validate_accepts configuration).mp ⟨accepted,h⟩
  have hreflects := (validated_reflects hvalid).locations
  have hserver : settings = (ValidationState.validated configuration).server := by
    rw [validate] at h
    split at h
    · obtain rfl := Except.ok.inj h
      exact List.mem_singleton.mp hsettings
    · cases h
  rw [← hserver] at hreflects
  have hsame : settings.locations.map (·.apiPath) = configuration.server.locations.map (·.apiPath) := by
    generalize configuration.server.locations = parsed at hreflects
    generalize settings.locations = configured at hreflects
    induction hreflects with
    | nil => rfl
    | cons hlocation _ ih => rw [List.map_cons,List.map_cons,ih,hlocation.apiPath]
  refine ⟨?_,?_,hsame ▸ hvalid.disjoint⟩
  · intro hempty
    rw [hempty,List.forall₂_nil_right_iff] at hreflects
    exact hvalid.nonempty hreflects
  · intro location hlocation
    have hmem : location.apiPath ∈ configuration.server.locations.map (·.apiPath) :=
      hsame ▸ List.mem_map_of_mem hlocation
    obtain ⟨parsed,hparsed,hpath⟩ := List.mem_map.mp hmem
    exact hpath ▸ (hvalid.locations parsed hparsed).path

/-- Locations on paths of a valid configuration can be registered together when there is room for their routes and
none of them is an authentication path. -/
theorem paths_register {σ : Type} {locations : List (FilesystemApiLocation σ)} {paths : List Bytes} (hne : paths ≠ [])
    (hpaths : ∀ path ∈ paths, LocationPath path) (hdisjoint : Configuration.Disjoint paths)
    (hlocations : locations.map (·.apiPath) = paths) (decorator : Option (ProtectedRouteDecorator σ))
    (handlers : AuthenticationHandlers σ) :
    ((registerServerRoutes { protectedRouteDecorator := decorator } (some handlers) locations).isSome = true ↔
      8 * paths.length + 2 ≤ maximumRouteCount ∧ ∀ path ∈ paths, path ≠ loginPath ∧ path ≠ logoutPath) ∧
    ∀ builder, registerServerRoutes { protectedRouteDecorator := decorator } (some handlers) locations = some builder →
      ServesLocations builder.build decorator handlers locations := by
  subst hlocations
  rw [List.forall_mem_map] at hpaths
  rw [List.length_map,List.forall_mem_map]
  have hsome : locations ≠ [] := fun hempty => hne (by rw [hempty,List.map_nil])
  have hiff := registerServerRoutes_iff decorator handlers hsome hpaths hdisjoint
  constructor
  · constructor
    · intro h
      obtain ⟨builder,hbuilder⟩ := Option.isSome_iff_exists.mp h
      exact ((hiff builder.build).mp (by rw [hbuilder]; rfl)).1
    · intro h
      obtain ⟨builder,hbuilder,-⟩ := Option.map_eq_some_iff.mp ((hiff _).mpr ⟨h,rfl⟩)
      rw [hbuilder]
      rfl
  · intro builder hbuilder
    have hrouter := ((hiff builder.build).mp (by rw [hbuilder]; rfl)).2
    rw [hrouter]
    exact serverRouter_serves hpaths hdisjoint

/-- The locations of an accepted configuration can be registered together when there is room for their routes and
none of them is an authentication path; then every request path belongs to the location that it lies below. -/
theorem locations_route_uniquely {σ : Type} {configuration : ParsedConfiguration} {accepted : ValidatedConfiguration}
    {settings : ServerSettings} (haccepted : validate configuration = .ok accepted)
    (hsettings : settings ∈ accepted.settings.servers) {locations : List (FilesystemApiLocation σ)}
    (hlocations : locations.map (·.apiPath) = settings.locations.map (·.apiPath))
    (decorator : Option (ProtectedRouteDecorator σ)) (handlers : AuthenticationHandlers σ) :
    ((registerServerRoutes { protectedRouteDecorator := decorator } (some handlers) locations).isSome = true ↔
      8 * settings.locations.length + 2 ≤ maximumRouteCount ∧
        ∀ location ∈ settings.locations, location.apiPath ≠ loginPath ∧ location.apiPath ≠ logoutPath) ∧
    ∀ builder, registerServerRoutes { protectedRouteDecorator := decorator } (some handlers) locations = some builder →
      ServesLocations builder.build decorator handlers locations := by
  obtain ⟨hne,hpaths,hdisjoint⟩ := validate_paths haccepted hsettings
  have hregister := paths_register (by simpa using hne) (by rwa [List.forall_mem_map]) hdisjoint hlocations decorator
    handlers
  rwa [List.length_map,List.forall_mem_map] at hregister

def mediaLocation (apiPath : Bytes) : ParsedLocationBlock :=
  ⟨apiPath,{},{},{},[⟨.path,⟨.string (ascii "data"),{}⟩,{},rfl⟩]⟩

def mediaConfiguration : ParsedConfiguration :=
  ⟨⟨{},{},[],[mediaLocation (ascii "/files"),mediaLocation (ascii "/media")]⟩,{}⟩

def mediaService (apiPath : Bytes) : FilesystemApiLocation Unit :=
  ⟨apiPath,fun _ _ _ => pure (.error ⟨.handlerFailure,0⟩)⟩

def mediaAuthentication : AuthenticationHandlers Unit :=
  ⟨fun _ => pure (.error ⟨.handlerFailure,0⟩),fun _ => pure (.error ⟨.handlerFailure,0⟩)⟩

theorem locations_route_uniquely_media : ∃ builder,
    registerServerRoutes { protectedRouteDecorator := none } (some mediaAuthentication)
      [mediaService (ascii "/files"),mediaService (ascii "/media")] = some builder ∧
    ServesLocations builder.build none mediaAuthentication
      [mediaService (ascii "/files"),mediaService (ascii "/media")] := by
  have hvalid : validate mediaConfiguration =
      .ok ⟨mediaConfiguration,⟨[(ValidationState.validated mediaConfiguration).server]⟩⟩ := by
    decide +kernel
  have hpaths : (ValidationState.validated mediaConfiguration).server.locations.map (·.apiPath) =
      [ascii "/files",ascii "/media"] := by
    decide +kernel
  have hall := @locations_route_uniquely Unit _ _ _ hvalid List.mem_cons_self
    [mediaService (ascii "/files"),mediaService (ascii "/media")] hpaths.symm none mediaAuthentication
  obtain ⟨builder,hbuilder⟩ := Option.isSome_iff_exists.mp (hall.1.mpr ⟨by decide +kernel,by decide +kernel⟩)
  exact ⟨builder,hbuilder,hall.2 builder hbuilder⟩

end SpareNode.Application
