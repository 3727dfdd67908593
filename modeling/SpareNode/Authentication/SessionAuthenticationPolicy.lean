import SpareNode.Http.Api.ApiRouterBuilder

/-! # The session policy

The stage of a protected route that asks for a session cookie: one Cookie field with one
nonempty component of the session's name, and a store that knows its value.
-/
namespace SpareNode.Authentication
open Http Http.Api Session

def sessionCookieName : Bytes := ascii "spnode_session"

structure SessionCookieCredential where
  value : Bytes := []
  malformed : Bool := false
deriving DecidableEq, Repr

/-- The value of a component with the session's name before its first equals sign. -/
def sessionComponentValue (component : Bytes) : Option Bytes :=
  match find (char '=') component with
  | none => none
  | some separator =>
    if component.take separator = sessionCookieName then some (component.drop (separator + 1)) else none

/-- What one component does to the result of `cookie_field_credential`; no result stands for an
early return. -/
def cookieComponent (result : SessionCookieCredential) (component : Bytes) : Option SessionCookieCredential :=
  match sessionComponentValue component with
  | none => some result
  | some value =>
    if !result.value.isEmpty then none
    else if value.isEmpty then none
    else some { result with value := value }

def cookieFieldLoop (remaining : Bytes) (result : SessionCookieCredential) : SessionCookieCredential :=
  if remaining.isEmpty then result
  else
    match _hdelimiter : find (char ';') remaining with
    | none =>
      match cookieComponent result (trimOptionalWhitespace remaining) with
      | none => ⟨[],true⟩
      | some result => result
    | some delimiter =>
      match cookieComponent result (trimOptionalWhitespace (remaining.take delimiter)) with
      | none => ⟨[],true⟩
      | some result => cookieFieldLoop (remaining.drop (delimiter + 1)) result
termination_by remaining.length
decreasing_by
  have := find_lt_length _hdelimiter
  simp only [List.length_drop]
  omega

def cookieFieldCredential (field : Bytes) : SessionCookieCredential := cookieFieldLoop field {}

def extractSessionCookieCredential :
    List HttpHeaderView → (found : Bool) → SessionCookieCredential → SessionCookieCredential
  | [],_,result => result
  | field :: fields,found,result =>
    if !asciiCaseInsensitiveEqual field.name (ascii "cookie") then
      extractSessionCookieCredential fields found result
    else if found then ⟨[],true⟩
    else extractSessionCookieCredential fields true (cookieFieldCredential field.value)

def sessionCookieCredential (fields : List HttpHeaderView) : SessionCookieCredential :=
  extractSessionCookieCredential fields false {}

/-- What handlers and policies work on: the session store behind its pointer, and everything
else. -/
structure ServerState (ρ : Type) where
  sessions : Option SessionStore
  rest : ρ

variable {ρ : Type} (env : Session.Environment) (date : Bytes)

def authenticationRequired : RouteResult :=
  makeJsonResponse date .unauthorized "\x7b\"error\":\"authentication_required\"\x7d"
    [⟨ascii "WWW-Authenticate",ascii "SpareNodeSession realm=\"SpareNode\""⟩]

def authenticationUnavailable : RouteResult :=
  makeJsonResponse date .serviceUnavailable "\x7b\"error\":\"authentication_unavailable\"\x7d" []

def makeSessionAuthenticationPolicy : ApiRequestDecorator (ServerState ρ) :=
  fun next context server =>
    match server.sessions with
    | none => (authenticationUnavailable date,server)
    | some sessions =>
      let credential := sessionCookieCredential context.request.fields
      if credential.malformed || credential.value.isEmpty then (authenticationRequired date,server)
      else
        match sessions.authenticate env credential.value with
        | (.error _,sessions) => (authenticationUnavailable date,{ server with sessions := some sessions })
        | (.ok none,sessions) => (authenticationRequired date,{ server with sessions := some sessions })
        | (.ok (some principal),sessions) =>
          next { context with authenticatedPrincipal := some principal }
            { server with sessions := some sessions }

def cookieComponents (field : Bytes) : List Bytes :=
  (field.splitOn (char ';')).map trimOptionalWhitespace

/-- The values that a Cookie field gives for the session. -/
def sessionValues (field : Bytes) : List Bytes := (cookieComponents field).filterMap sessionComponentValue

def cookieFields (fields : List HttpHeaderView) : List HttpHeaderView :=
  fields.filter (fun field => asciiCaseInsensitiveEqual field.name (ascii "cookie"))

/-- A component has the session's name when it starts with it and an equals sign. -/
theorem sessionComponentValue_eq_some {component value : Bytes} :
    sessionComponentValue component = some value ↔ component = sessionCookieName ++ char '=' :: value := by
  unfold sessionComponentValue
  constructor
  · intro h
    split at h
    · cases h
    · rename_i separator hseparator
      obtain ⟨a,b,rfl,ha,rfl⟩ := find_eq_some_iff.mp hseparator
      split at h
      · rename_i hname
        rw [List.take_left] at hname
        rw [drop_cons_append] at h
        cases h
        rw [hname]
      · cases h
  · rintro rfl
    have hfind : find (char '=') (sessionCookieName ++ char '=' :: value) = some sessionCookieName.length :=
      find_eq_some_iff.mpr ⟨_,_,rfl,by decide,rfl⟩
    rw [hfind]
    dsimp only
    rw [List.take_left,if_pos rfl,drop_cons_append]

/-- What a list of values for the session comes to behind a value already found. -/
def credentialOf (found : Bytes) : List Bytes → SessionCookieCredential
  | [] => ⟨found,false⟩
  | value :: values => if found = [] ∧ value ≠ [] ∧ values = [] then ⟨value,false⟩ else ⟨[],true⟩

theorem cookieComponent_eq (found component : Bytes) :
    (match cookieComponent ⟨found,false⟩ component with
      | none => (⟨[],true⟩ : SessionCookieCredential)
      | some result => result) = credentialOf found (sessionComponentValue component).toList := by
  unfold cookieComponent
  cases sessionComponentValue component with
  | none => rfl
  | some value =>
    cases found <;> cases value <;> rfl

theorem credentialOf_cons (found value : Bytes) (values : List Bytes) (hfound : found = []) (hvalue : value ≠ []) :
    credentialOf found (value :: values) = credentialOf value values := by
  cases values with
  | nil => simp [credentialOf,hfound,hvalue]
  | cons next values => simp [credentialOf,hvalue]

theorem cookieFieldLoop_eq (remaining found : Bytes) :
    cookieFieldLoop remaining ⟨found,false⟩ = credentialOf found (sessionValues remaining) := by
  induction hn : remaining.length using Nat.strong_induction_on generalizing remaining found with
  | _ n ih =>
    rw [cookieFieldLoop]
    split
    · rename_i hempty
      rw [List.isEmpty_iff.mp hempty]
      rfl
    · split
      · rename_i hdelimiter
        have hwhole : sessionValues remaining =
            (sessionComponentValue (trimOptionalWhitespace remaining)).toList := by
          rw [sessionValues,cookieComponents,List.splitOn_eq_singleton (find_eq_none_iff.mp hdelimiter)]
          cases hvalue : sessionComponentValue (trimOptionalWhitespace remaining) <;> simp [hvalue]
        rw [hwhole]
        exact cookieComponent_eq found _
      · rename_i delimiter hdelimiter
        obtain ⟨a,b,rfl,ha,rfl⟩ := find_eq_some_iff.mp hdelimiter
        have hsplit : sessionValues (a ++ char ';' :: b) =
            (sessionComponentValue (trimOptionalWhitespace a)).toList ++ sessionValues b := by
          rw [sessionValues,cookieComponents,List.splitOn_append_cons_self_of_not_mem ha]
          cases hvalue : sessionComponentValue (trimOptionalWhitespace a) <;>
            simp [hvalue,sessionValues,cookieComponents]
        have hshorter : b.length < n := by
          rw [← hn,List.length_append,List.length_cons]
          omega
        rw [hsplit,List.take_left,drop_cons_append]
        unfold cookieComponent
        cases sessionComponentValue (trimOptionalWhitespace a) with
        | none => exact ih _ hshorter b found rfl
        | some value =>
          cases found with
          | cons x found => rfl
          | nil =>
            cases value with
            | nil => rfl
            | cons x value =>
              rw [Option.toList_some,List.singleton_append,credentialOf_cons [] (x :: value) _ rfl (by simp)]
              exact ih _ hshorter b (x :: value) rfl

theorem extractSessionCookieCredential_eq (fields : List HttpHeaderView) (found : Bool)
    (result : SessionCookieCredential) :
    extractSessionCookieCredential fields found result =
      match cookieFields fields with
      | [] => result
      | [field] => if found then ⟨[],true⟩ else cookieFieldCredential field.value
      | _ => ⟨[],true⟩ := by
  induction fields generalizing found result with
  | nil => rfl
  | cons field fields ih =>
    unfold extractSessionCookieCredential
    cases hname : asciiCaseInsensitiveEqual field.name (ascii "cookie") with
    | false =>
      have hsame : cookieFields (field :: fields) = cookieFields fields := by
        rw [cookieFields,List.filter_cons_of_neg (by simp [hname])]
        rfl
      rw [hsame]
      exact ih found result
    | true =>
      have hmore : cookieFields (field :: fields) = field :: cookieFields fields := by
        rw [cookieFields,List.filter_cons_of_pos (by simpa using hname)]
        rfl
      rw [hmore,Bool.not_true,if_neg (by decide)]
      cases found with
      | true => cases cookieFields fields <;> rfl
      | false =>
        rw [if_neg (by decide),ih]
        rcases cookieFields fields with _ | ⟨second,_ | ⟨third,rest⟩⟩ <;> rfl

/-- One Cookie field with one component of the session's name, whose value is not empty. -/
def SessionCookie (fields : List HttpHeaderView) (value : Bytes) : Prop :=
  ∃ field, cookieFields fields = [field] ∧
    (cookieComponents field.value).filter (fun c => (sessionComponentValue c).isSome) =
      [sessionCookieName ++ char '=' :: value] ∧ value ≠ []

/-- The name of a component stands before its first equals sign. -/
def componentName (component : Bytes) : Option Bytes :=
  if char '=' ∈ component then some (component.takeWhile (· != char '=')) else none

/-- The components of the Cookie fields that have the session's name. -/
def namedComponents (fields : List HttpHeaderView) : List Bytes :=
  (cookieFields fields).flatMap fun field =>
    (cookieComponents field.value).filter fun c => componentName c = some sessionCookieName

/-- At most one Cookie field, and in it no component of the session and no value, or the one that is there. -/
def Recovered (fields : List HttpHeaderView) (value : Bytes) : Prop :=
  (cookieFields fields).length ≤ 1 ∧ ((namedComponents fields = [] ∧ value = []) ∨
    namedComponents fields = [sessionCookieName ++ char '=' :: value] ∧ value ≠ [])

theorem componentName_iff {component : Bytes} :
    componentName component = some sessionCookieName ↔ (sessionComponentValue component).isSome = true := by
  have hname : sessionCookieName.all (· != char '=') = true := by decide
  rw [Option.isSome_iff_exists]
  simp only [sessionComponentValue_eq_some]
  unfold componentName
  constructor
  · intro h
    split at h
    · rename_i hmem
      have hrest : component.dropWhile (· != char '=') ≠ [] := by
        intro hnil
        rw [List.dropWhile_eq_nil_iff] at hnil
        exact absurd (hnil _ hmem) (by simp)
      obtain ⟨b,value,hdrop⟩ := List.exists_cons_of_ne_nil hrest
      have hhead := head_dropWhile_self (· != char '=') component b (by rw [hdrop]; rfl)
      have hb : b = char '=' := by simpa using hhead
      refine ⟨value,?_⟩
      calc component
          = component.takeWhile (· != char '=') ++ component.dropWhile (· != char '=') :=
            List.takeWhile_append_dropWhile.symm
        _ = sessionCookieName ++ char '=' :: value := by rw [Option.some.inj h,hdrop,hb]
    · cases h
  · rintro ⟨value,rfl⟩
    rw [if_pos (by simp),takeWhile_append_of hname (by simp)]

/-- The components of the session are written from its values. -/
theorem namedComponents_eq (fields : List HttpHeaderView) : namedComponents fields =
    ((cookieFields fields).flatMap fun field => sessionValues field.value).map
      fun value => sessionCookieName ++ char '=' :: value := by
  have hcomponents (components : List Bytes) :
      (components.filter fun c => componentName c = some sessionCookieName) =
        (components.filterMap sessionComponentValue).map fun value => sessionCookieName ++ char '=' :: value := by
    induction components with
    | nil => rfl
    | cons c components ih =>
      cases hvalue : sessionComponentValue c with
      | none => rw [List.filter_cons_of_neg (by simp [componentName_iff,hvalue]),List.filterMap_cons_none hvalue,ih]
      | some value =>
        rw [List.filter_cons_of_pos (by simp [componentName_iff,hvalue]),List.filterMap_cons_some hvalue,
          List.map_cons,ih,sessionComponentValue_eq_some.mp hvalue]
  simp only [namedComponents,hcomponents,sessionValues,List.map_flatMap]

theorem namedComponents_singleton {fields : List HttpHeaderView} {value : Bytes} :
    namedComponents fields = [sessionCookieName ++ char '=' :: value] ↔
      ((cookieFields fields).flatMap fun field => sessionValues field.value) = [value] := by
  rw [namedComponents_eq,List.map_eq_singleton_iff]
  constructor
  · rintro ⟨v,hv,heq⟩
    rw [hv,(List.cons.inj (List.append_cancel_left heq)).2]
  · intro h
    exact ⟨value,h,rfl⟩

theorem credentialOf_iff {values : List Bytes} {value : Bytes} : credentialOf [] values = ⟨value,false⟩ ↔
    (values = [] ∧ value = []) ∨ values = [value] ∧ value ≠ [] := by
  cases values with
  | nil => simp [credentialOf,eq_comm]
  | cons v values =>
    rw [credentialOf]
    split
    · rename_i hone
      rw [hone.2.2]
      constructor
      · intro h
        cases h
        exact .inr ⟨rfl,hone.2.1⟩
      · rintro (⟨h,-⟩ | ⟨h,-⟩)
        · cases h
        · rw [(List.cons.inj h).1]
    · rename_i hmany
      constructor
      · intro h
        cases h
      · rintro (⟨h,-⟩ | ⟨h,hvalue⟩)
        · cases h
        · obtain ⟨rfl,hrest⟩ := List.cons.inj h
          exact absurd ⟨rfl,hvalue,hrest⟩ hmany

theorem credentialOf_malformed {found : Bytes} {values : List Bytes} (h : (credentialOf found values).malformed = true) :
    credentialOf found values = ⟨[],true⟩ := by
  cases values with
  | nil => cases h
  | cons value values =>
    rw [credentialOf] at h ⊢
    split at h
    · cases h
    · rename_i hmany
      exact if_neg hmany

theorem sessionCookieCredential_eq (fields : List HttpHeaderView) : sessionCookieCredential fields =
    if (cookieFields fields).length ≤ 1 then
      credentialOf [] ((cookieFields fields).flatMap fun field => sessionValues field.value)
    else ⟨[],true⟩ := by
  rw [sessionCookieCredential,extractSessionCookieCredential_eq]
  match cookieFields fields with
  | [] => rfl
  | [field] => simp [cookieFieldCredential,cookieFieldLoop_eq]
  | _ :: _ :: _ => simp

theorem sessionCookieCredential_iff {fields : List HttpHeaderView} {value : Bytes} :
    sessionCookieCredential fields = ⟨value,false⟩ ↔ Recovered fields value := by
  have hnone : namedComponents fields = [] ↔
      ((cookieFields fields).flatMap fun field => sessionValues field.value) = [] := by
    rw [namedComponents_eq,List.map_eq_nil_iff]
  rw [sessionCookieCredential_eq,Recovered,hnone,namedComponents_singleton]
  split
  · rename_i hcount
    rw [and_iff_right hcount,credentialOf_iff]
  · rename_i hcount
    constructor
    · intro h
      cases h
    · intro h
      exact absurd h.1 hcount

theorem sessionCookieCredential_malformed {fields : List HttpHeaderView}
    (h : (sessionCookieCredential fields).malformed = true) : sessionCookieCredential fields = ⟨[],true⟩ := by
  rw [sessionCookieCredential_eq] at h ⊢
  split at h
  · rename_i hcount
    rw [if_pos hcount]
    exact credentialOf_malformed h
  · rename_i hcount
    exact if_neg hcount

/-- A credential that the policy goes on with is the one session cookie of the request. -/
theorem sessionCookieCredential_sound {fields : List HttpHeaderView} {value : Bytes}
    (h : sessionCookieCredential fields = ⟨value,false⟩) (hvalue : value ≠ []) : SessionCookie fields value := by
  obtain ⟨hcount,⟨-,hempty⟩ | ⟨hnamed,-⟩⟩ := sessionCookieCredential_iff.mp h
  · exact absurd hempty hvalue
  · match hfields : cookieFields fields,hcount with
    | [],_ => simp [namedComponents,hfields] at hnamed
    | [field],_ =>
      rw [namedComponents,hfields,List.flatMap_singleton] at hnamed
      simp only [componentName_iff,Bool.decide_eq_true] at hnamed
      exact ⟨field,hfields,hnamed,hvalue⟩

end SpareNode.Authentication
