import SpareNode.Authentication.AuthenticationService
import SpareNode.Authentication.LoginSchema
import SpareNode.Authentication.SessionCookies
import SpareNode.Http.Api.JsonResponse

/-! # Login and logout over HTTP

The handlers of the two authentication routes: what they check before they call the service, how
its answers become responses, and what the routes answer when memory runs out. What the ports of
the authentication service answer comes with each request.
-/
namespace SpareNode.Authentication
open Http Http.Api Session SpareNode.Application

/-- The loop of `has_json_content_type`; a second Content-Type field ends it. -/
def contentTypeLoop : List HttpHeaderView → (value : Option Bytes) → Option Bytes
  | [],value => value
  | field :: fields,value =>
    if !asciiCaseInsensitiveEqual field.name (ascii "Content-Type") then contentTypeLoop fields value
    else
      match value with
      | some _ => none
      | none => contentTypeLoop fields (some field.value)

/-- What `has_json_content_type` asks of the value of the field. -/
def isJsonMediaType (value : Bytes) : Bool :=
  let separator := find (char ';') value
  let mediaType := trimOptionalWhitespace (match separator with
    | some separator => value.take separator
    | none => value)
  if !asciiCaseInsensitiveEqual mediaType (ascii "application/json") then false
  else
    match separator with
    | none => true
    | some separator =>
      let parameter := trimOptionalWhitespace (value.drop (separator + 1))
      match find (char '=') parameter with
      | none => false
      | some equals =>
        if char ';' ∈ parameter then false
        else
          asciiCaseInsensitiveEqual (trimOptionalWhitespace (parameter.take equals)) (ascii "charset") &&
            asciiCaseInsensitiveEqual (trimOptionalWhitespace (parameter.drop (equals + 1))) (ascii "utf-8")

def hasJsonContentType (fields : List HttpHeaderView) : Bool :=
  match contentTypeLoop fields none with
  | none => false
  | some value => isJsonMediaType value

section Responses
variable (date : Bytes)

def malformedLogin : RouteResult :=
  makeJsonResponse date .badRequest "\x7b\"error\":\"invalid_login_request\"\x7d" []

def unsupportedMediaType : RouteResult :=
  makeJsonResponse date .unsupportedMediaType "\x7b\"error\":\"unsupported_media_type\"\x7d" []

def invalidCredentials : RouteResult :=
  makeJsonResponse date .unauthorized "\x7b\"error\":\"invalid_credentials\"\x7d" []

def authenticationThrottled : RouteResult :=
  makeJsonResponse date .tooManyRequests "\x7b\"error\":\"authentication_throttled\"\x7d" []

def expiredSessionCookie (secure : Bool) : Bytes := sessionCookie [] secure ++ ascii "; Max-Age=0"

def cookieHeaders (cookie : Option Bytes) : List HttpResponseHeader :=
  match cookie with
  | some cookie => [⟨ascii "Set-Cookie",cookie⟩]
  | none => []

def authenticationResponse (cookie : Option Bytes) : RouteResult :=
  match HttpResponse.create date .noContent (httpReasonPhrase .noContent) (cookieHeaders cookie) [] with
  | .error e => .error ⟨.responseValidationFailure,e.code.value⟩
  | .ok response => .ok response

end Responses

/-- The authentication service and the session store behind `SessionAuthenticationService`. -/
structure AuthenticationServer where
  authentication : SharedState
  sessions : SessionStore

/-- What the credential source and the password verifier answer to one request, and whether there is
memory for the credential that it verifies. -/
structure AuthenticationPorts where
  findByLogin : Bytes → Except CredentialProviderErrorCode (Option CredentialRecord)
  verify : Bytes → Bytes → Except PasswordVerifierErrorCode Bool
  copied : Bool

def AuthenticationPorts.attempt (ports : AuthenticationPorts) (submitted : LoginRequest) : Attempt :=
  ⟨submitted.login,submitted.password,ports.findByLogin,ports.verify,ports.copied⟩

/-- How far the memory of a handler goes: to the call of its service, to the service's answer or to
its own. -/
inductive HandlerMemory where
  | beforeService | beforeAnswer | enough
deriving DecidableEq, Repr

section Handlers
variable (env : Session.Environment) (clock : ℕ → TimePoint) (date : Bytes)

/-- `login` up to the call of the service: the response that ends it, or the submitted login with the
presented credential. A body in a temporary file is not in memory. -/
def readLogin (temporaryBody : Bool) (request : RoutedRequest) : Except RouteResult (LoginRequest × Bytes) :=
  let body := if temporaryBody then [] else request.body
  if !hasJsonContentType request.fields then .error (unsupportedMediaType date)
  else if request.body.length = 0 ∨ maximumLoginBodyBytes < request.body.length ∨
      body.length ≠ request.body.length ∨ temporaryBody then .error (malformedLogin date)
  else
    match LoginJsonParser.parse body with
    | none => .error (malformedLogin date)
    | some submitted =>
      let previousSession := sessionCookieCredential request.fields
      if previousSession.malformed then .error (malformedLogin date)
      else .ok (submitted,previousSession.value)

/-- `SessionAuthenticationService::login`. -/
def submitLogin (ports : AuthenticationPorts) (submitted : LoginRequest) (previousSession : Bytes)
    (server : AuthenticationServer) : Except SessionLoginErrorCode Bytes × AuthenticationServer :=
  let outcome := authenticate clock server.authentication (ports.attempt submitted)
  let authenticated := Application.login env (outcome.result.map AuthenticatedCredential.principal)
    previousSession server.sessions
  (authenticated.1,⟨outcome.state,authenticated.2⟩)

def login (ports : AuthenticationPorts) (temporaryBody : Bool) (request : RoutedRequest) :
    StateM AuthenticationServer RouteResult := fun server =>
  match readLogin date temporaryBody request with
  | .error response => (response,server)
  | .ok (submitted,previousSession) =>
    match submitLogin env clock ports submitted previousSession server with
    | (.error .invalidCredentials,server) => (invalidCredentials date,server)
    | (.error .throttled,server) => (authenticationThrottled date,server)
    | (.error .unavailable,server) => (authenticationUnavailable date,server)
    | (.ok credential,server) =>
      (authenticationResponse date (some (sessionCookie credential request.transport.secure)),server)

def logout (request : RoutedRequest) : StateM AuthenticationServer RouteResult := fun server =>
  let credential := sessionCookieCredential request.fields
  if credential.malformed || credential.value.isEmpty then (authenticationResponse date none,server)
  else
    match Application.logout env credential.value server.sessions with
    | (.error _,sessions) => (authenticationUnavailable date,{ server with sessions := sessions })
    | (.ok _,sessions) =>
      (authenticationResponse date (some (expiredSessionCookie request.transport.secure)),
        { server with sessions := sessions })

/-- What an authentication route makes of its handler: `std::bad_alloc` is answered as unavailable. -/
def guarded (memory : HandlerMemory) (handler : StateM AuthenticationServer RouteResult) :
    StateM AuthenticationServer RouteResult := fun server =>
  match memory with
  | .beforeService => (authenticationUnavailable date,server)
  | .beforeAnswer => (authenticationUnavailable date,(handler server).2)
  | .enough => handler server

end Handlers

section Answers
variable {date : Bytes}

/-- An error of the authentication routes: its status and its JSON text. -/
structure Refused (result : RouteResult) (status : HttpStatusCode) (identifier : Bytes) : Prop where
  answered : ∃ response, result = .ok response ∧ response.statusCode = status ∧
    response.headers.head? = some contentTypeHeader ∧
    response.memoryBody = ascii "\x7b\"error\":\"" ++ identifier ++ ascii "\"\x7d"

theorem refused_of_text {status : HttpStatusCode} {body : String} {headers : List HttpResponseHeader}
    {identifier : Bytes} (hrange : 200 ≤ status.value ∧ status.value ≤ 599)
    (hstatus : statusHasNoMessageBody status = false) (hbody : (ascii body).length < 10 ^ 6)
    (hfields : ∀ header ∈ headers, CleanField header ∧
      asciiCaseInsensitiveEqual header.name (ascii "Content-Type") = false)
    (hcount : headers.length < maximumHeaderCount)
    (hfits : (headers.map (fun header => header.name.length + header.value.length + 4)).sum ≤ 30000)
    (htext : ascii body = ascii "\x7b\"error\":\"" ++ identifier ++ ascii "\"\x7d") :
    Refused (makeJsonResponse date status body headers) status identifier := by
  constructor
  rw [makeJsonResponse_ok hrange hstatus hbody hfields hcount hfits]
  exact ⟨_,rfl,rfl,rfl,htext⟩

theorem malformedLogin_refused : Refused (malformedLogin date) .badRequest (ascii "invalid_login_request") := by
  apply refused_of_text <;> first | decide | simp

theorem unsupportedMediaType_refused :
    Refused (unsupportedMediaType date) .unsupportedMediaType (ascii "unsupported_media_type") := by
  apply refused_of_text <;> first | decide | simp

theorem invalidCredentials_refused :
    Refused (invalidCredentials date) .unauthorized (ascii "invalid_credentials") := by
  apply refused_of_text <;> first | decide | simp

theorem authenticationThrottled_refused :
    Refused (authenticationThrottled date) .tooManyRequests (ascii "authentication_throttled") := by
  apply refused_of_text <;> first | decide | simp

theorem authenticationUnavailable_refused :
    Refused (authenticationUnavailable date) .serviceUnavailable (ascii "authentication_unavailable") := by
  apply refused_of_text <;> first | decide | simp

theorem challenge_clean : CleanField ⟨ascii "WWW-Authenticate",ascii "SpareNodeSession realm=\"SpareNode\""⟩ where
  name := ⟨by decide,by decide⟩
  value := by decide +kernel
  own := by decide

theorem authenticationRequired_refused :
    Refused (authenticationRequired date) .unauthorized (ascii "authentication_required") := by
  apply refused_of_text (by decide) (by decide) (by decide) ?_ (by decide) (by decide) (by decide)
  intro header hheader
  rw [List.mem_singleton.mp hheader]
  exact ⟨challenge_clean,by decide⟩

/-- A success without a body that sets what it was given. -/
def Succeeded (result : RouteResult) (headers : List HttpResponseHeader) : Prop :=
  ∃ response, result = .ok response ∧ response.statusCode = .noContent ∧ response.headers = headers ∧
    response.memoryBody = []

theorem authenticationResponse_succeeded {cookie : Option Bytes}
    (h : ∀ value ∈ cookie, value.all isHttpFieldValueByte = true ∧ value.length ≤ 1000) :
    Succeeded (authenticationResponse date cookie) (cookieHeaders cookie) := by
  have hvalid : validateResponse .noContent (httpReasonPhrase .noContent) (cookieHeaders cookie) 0 = .ok () := by
    have hphrase := httpReasonPhrase_clean .noContent
    have hfixed : fixedHeadSize .noContent (httpReasonPhrase .noContent) 0 = 83 := by decide +kernel
    have hname : (ascii "Set-Cookie").length = 10 := by decide
    apply validateResponse_iff.mpr
    refine ⟨⟨by decide,hphrase.1,?_,fun _ => rfl,?_⟩,?_⟩
    · cases cookie with
      | none => simp [cookieHeaders]
      | some value =>
        intro header hheader
        rw [List.mem_singleton.mp hheader]
        have hown : ∀ managed ∈ managedNames, asciiCaseInsensitiveEqual (ascii "Set-Cookie") managed = false := by decide
        have htoken : IsToken (ascii "Set-Cookie") := ⟨by decide,by decide⟩
        exact ⟨htoken,(h value rfl).1,hown⟩
    · rw [hfixed,maximumHeadBytes]
      cases cookie with
      | none => decide
      | some value =>
        have := (h value rfl).2
        simp only [cookieHeaders,List.map_cons,List.map_nil,List.sum_cons,List.sum_nil,hname]
        omega
    · cases cookie <;> simp [cookieHeaders,maximumHeaderCount]
  have hcreate : HttpResponse.create date .noContent (httpReasonPhrase .noContent) (cookieHeaders cookie) [] = .ok
      { statusCode := .noContent
        reasonPhrase := httpReasonPhrase .noContent
        headers := cookieHeaders cookie
        memoryBody := []
        contentLength := 0
        dateValue := originationDate .noContent date
        bodyReader := none } := by
    rw [HttpResponse.create,if_neg (by simp),List.length_nil,hvalid]
  rw [authenticationResponse,hcreate]
  exact ⟨_,rfl,rfl,rfl,rfl⟩

end Answers
end SpareNode.Authentication
