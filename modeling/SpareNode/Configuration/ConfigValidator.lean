import SpareNode.Configuration.ConfigParser
import SpareNode.Foundation.AddressClasses

/-! # The configuration validator

`ValidationState` walks the parsed model once, records what the later relations read and collects errors.
The settings are filled in as the directives pass, over their defaults.
-/
namespace SpareNode.Configuration

inductive ConfiguredLogLevel where
  | debug | info | warning | error
deriving DecidableEq, Repr

inductive ConfiguredTransportMode where
  | loopbackHttp | trustedLanHttp | trustedProxyHttps
deriving DecidableEq, Repr

structure ConfiguredPath where
  value : Bytes
  location : SourceLocation
deriving DecidableEq

structure LocationSettings where
  apiPath : Bytes
  root : ConfiguredPath := ⟨[],{}⟩
  allowRead : Bool := true
  allowWrite : Bool := false
  allowDelete : Bool := false
deriving DecidableEq

structure ServerSettings where
  location : SourceLocation
  bindAddress : Bytes := ascii "127.0.0.1"
  port : UInt16 := 8080
  multithreadingEnabled : Bool := false
  workerThreads : UInt64 := 1
  logLevel : ConfiguredLogLevel := .info
  headerTimeoutMs : UInt64 := 10000
  bodyTimeoutMs : UInt64 := 10000
  requestTimeoutMs : UInt64 := 30000
  responseTimeoutMs : UInt64 := 300000
  transportMode : ConfiguredTransportMode := .loopbackHttp
  trustedProxy : Option Bytes := none
  mimeTypesFile : Option ConfiguredPath := none
  credentialsFile : Option ConfiguredPath := none
  locations : List LocationSettings := []
deriving DecidableEq

structure AppSettings where
  servers : List ServerSettings
deriving DecidableEq

inductive ConfigValidationErrorCode where
  | duplicateServerDirective | missingLocation | invalidBindAddress | portOutOfRange | missingWorkerThreads
  | unexpectedWorkerThreads | workerThreadsOutOfRange | invalidLogLevel | invalidMimeTypesFile
  | invalidCredentialsFile | timeoutOutOfRange | invalidTransportMode | invalidTrustedProxy | missingTrustedProxy
  | unexpectedTrustedProxy | unsafeTransportBind | invalidLocationPath | conflictingLocationPath
  | duplicateLocationDirective | missingLocationRoot | invalidLocationRoot
deriving DecidableEq, Repr

structure ConfigValidationError where
  code : ConfigValidationErrorCode
  location : SourceLocation
  serverDirective : Option ServerDirectiveKind := none
  locationDirective : Option LocationDirectiveKind := none
  locationPath : Option Bytes := none
deriving DecidableEq

structure ValidatedConfiguration where
  parsed : ParsedConfiguration
  settings : AppSettings
deriving DecidableEq

def minimumPort : ℕ := 1
def maximumPort : ℕ := 65535
def minimumWorkerThreads : ℕ := 2
def maximumWorkerThreads : ℕ := 64
def maximumTimeoutMs : ℕ := 86400000

/-- `std::get`. A directive holds the alternative of its kind, so that the other cases do not occur. -/
def ParsedConfigScalar.text : ParsedConfigScalar → Bytes
  | .string value => value
  | _ => []

@[inherit_doc ParsedConfigScalar.text] def ParsedConfigScalar.number : ParsedConfigScalar → UInt64
  | .integer value => value
  | _ => 0

@[inherit_doc ParsedConfigScalar.text] def ParsedConfigScalar.flag : ParsedConfigScalar → Bool
  | .boolean value => value
  | _ => false

def isLoopbackIpAddress (value : Bytes) : Bool :=
  match Ip.parseNumericAddress value with
  | some parsed => Ip.isLoopbackAddress parsed
  | none => false

def isUnspecifiedIpAddress (value : Bytes) : Bool :=
  match Ip.parseNumericAddress value with
  | some parsed => Ip.isUnspecifiedAddress parsed
  | none => false

def parseConfiguredLogLevel (value : Bytes) : Option ConfiguredLogLevel :=
  if value = ascii "debug" then some .debug
  else if value = ascii "info" then some .info
  else if value = ascii "warning" then some .warning
  else if value = ascii "error" then some .error
  else none

def parseConfiguredTransportMode (value : Bytes) : Option ConfiguredTransportMode :=
  if value = ascii "loopback_http" then some .loopbackHttp
  else if value = ascii "trusted_lan_http" then some .trustedLanHttp
  else if value = ascii "trusted_proxy_https" then some .trustedProxyHttps
  else none

/-- A byte of a path that needs no escape. -/
def isPathByte (b : Byte) : Bool :=
  (char '0' ≤ b && b ≤ char '9') || (char 'A' ≤ b && b ≤ char 'Z') || (char 'a' ≤ b && b ≤ char 'z') ||
    (ascii "-._~!$&'()+,;=:@").contains b

def isPathHexadecimal (b : Byte) : Bool :=
  (char '0' ≤ b && b ≤ char '9') || (char 'A' ≤ b && b ≤ char 'F') || (char 'a' ≤ b && b ≤ char 'f')

/-- The loop of `is_valid_location_path` over the bytes after the first slash. -/
def validLocationBytes : Bytes → Bool
  | [] => true
  | b :: rest =>
    if b = char '/' || isPathByte b then validLocationBytes rest
    else if b ≠ char '%' then false
    else
      match rest with
      | high :: low :: rest' => isPathHexadecimal high && isPathHexadecimal low && validLocationBytes rest'
      | _ => false

def validLocationSegments (rest : Bytes) : Bool :=
  if rest = [] then true
  else
    match hseparator : find (char '/') rest with
    | none => !(rest.isEmpty || rest = ascii "." || rest = ascii "..")
    | some separator =>
      let segment := rest.take separator
      if segment.isEmpty || segment = ascii "." || segment = ascii ".." then false
      else validLocationSegments (rest.drop (separator + 1))
termination_by rest.length
decreasing_by
  have := find_lt_length hseparator
  simp only [List.length_drop]
  omega

def isValidLocationPath (path : Bytes) : Bool :=
  if path.isEmpty || path.head? ≠ some (char '/') ||
      (decide (1 < path.length) && path.getLast? = some (char '/')) then false
  else if !validLocationBytes (path.drop 1) then false
  else if path = ascii "/" then true
  else validLocationSegments (path.drop 1)

/-- `location_paths_conflict`, one way. -/
def locationPathContains (parent child : Bytes) : Bool :=
  parent = child || parent = ascii "/" ||
    (parent.isPrefixOf child && decide (parent.length < child.length) && child[parent.length]? = some (char '/'))

def locationPathsConflict (left right : Bytes) : Bool :=
  locationPathContains left right || locationPathContains right left

structure ValidationState where
  errors : List ConfigValidationError := []
  server : ServerSettings
  multithreadingEnabled : Bool := false
  workerThreads : UInt64 := 0
  workerThreadsDirective : Option ParsedServerDirective := none
  bindAddress : Bytes := ascii "127.0.0.1"
  transportModeValid : Bool := true
  bindDirective : Option ParsedServerDirective := none
  trustedProxyDirective : Option ParsedServerDirective := none

namespace ValidationState

def addError (s : ValidationState) (e : ConfigValidationError) : ValidationState := { s with errors := s.errors ++ [e] }

def addServerError (s : ValidationState) (code : ConfigValidationErrorCode) (directive : ParsedServerDirective)
    (location : SourceLocation) : ValidationState :=
  s.addError { code,location,serverDirective := some directive.kind }

/-- An error at the value of a directive unless its check passes. -/
def check (s : ValidationState) (passes : Bool) (code : ConfigValidationErrorCode)
    (directive : ParsedServerDirective) : ValidationState :=
  if passes then s else s.addServerError code directive directive.value.location

def validateTransportMode (s : ValidationState) (directive : ParsedServerDirective) : ValidationState :=
  match parseConfiguredTransportMode directive.value.scalar.text with
  | none =>
    { s with transportModeValid := false }.addServerError .invalidTransportMode directive directive.value.location
  | some mode => { s with server := { s.server with transportMode := mode } }

def validateTrustedProxy (s : ValidationState) (directive : ParsedServerDirective) : ValidationState :=
  let address := directive.value.scalar.text
  { s with
    trustedProxyDirective := some directive
    server := { s.server with trustedProxy := some address } }.check (Ip.parseNumericAddress address).isSome
      .invalidTrustedProxy directive

def validateTimeout (s : ValidationState) (directive : ParsedServerDirective) : ValidationState :=
  let value := directive.value.scalar.number
  let s := s.check (!(value.toNat = 0 || maximumTimeoutMs < value.toNat)) .timeoutOutOfRange directive
  match directive.kind with
  | .headerTimeoutMs => { s with server := { s.server with headerTimeoutMs := value } }
  | .bodyTimeoutMs => { s with server := { s.server with bodyTimeoutMs := value } }
  | .requestTimeoutMs => { s with server := { s.server with requestTimeoutMs := value } }
  | .responseTimeoutMs => { s with server := { s.server with responseTimeoutMs := value } }
  | _ => s

def validateBind (s : ValidationState) (directive : ParsedServerDirective) : ValidationState :=
  let address := directive.value.scalar.text
  { s with
    bindAddress := address
    bindDirective := some directive
    server := { s.server with bindAddress := address } }.check (Ip.parseNumericAddress address).isSome
      .invalidBindAddress directive

def validatePort (s : ValidationState) (directive : ParsedServerDirective) : ValidationState :=
  let port := directive.value.scalar.number
  let s := s.check (!(port.toNat < minimumPort || maximumPort < port.toNat)) .portOutOfRange directive
  { s with server := { s.server with port := port.toUInt16 } }

def validateLogLevel (s : ValidationState) (directive : ParsedServerDirective) : ValidationState :=
  match parseConfiguredLogLevel directive.value.scalar.text with
  | none => s.addServerError .invalidLogLevel directive directive.value.location
  | some level => { s with server := { s.server with logLevel := level } }

def validateMimeTypesFile (s : ValidationState) (directive : ParsedServerDirective) : ValidationState :=
  let path := directive.value.scalar.text
  let s := s.check (!path.isEmpty) .invalidMimeTypesFile directive
  { s with server := { s.server with mimeTypesFile := some ⟨path,directive.value.location⟩ } }

def validateCredentialsFile (s : ValidationState) (directive : ParsedServerDirective) : ValidationState :=
  let path := directive.value.scalar.text
  let s := s.check (!path.isEmpty) .invalidCredentialsFile directive
  { s with server := { s.server with credentialsFile := some ⟨path,directive.value.location⟩ } }

def validateServerDirective (s : ValidationState) (directive : ParsedServerDirective) : ValidationState :=
  match directive.kind with
  | .bind => s.validateBind directive
  | .port => s.validatePort directive
  | .multithreading =>
    { s with
      multithreadingEnabled := directive.value.scalar.flag
      server := { s.server with multithreadingEnabled := directive.value.scalar.flag } }
  | .workerThreads =>
    { s with
      workerThreads := directive.value.scalar.number
      server := { s.server with workerThreads := directive.value.scalar.number }
      workerThreadsDirective := some directive }
  | .logLevel => s.validateLogLevel directive
  | .mimeTypesFile => s.validateMimeTypesFile directive
  | .credentialsFile => s.validateCredentialsFile directive
  | .headerTimeoutMs | .bodyTimeoutMs | .requestTimeoutMs | .responseTimeoutMs => s.validateTimeout directive
  | .transportMode => s.validateTransportMode directive
  | .trustedProxy => s.validateTrustedProxy directive

/-- The loop of `validate_server_directives`; a repeated kind is reported and skipped. -/
def validateDirectives : List ParsedServerDirective → (encountered : List ServerDirectiveKind) → ValidationState →
    ValidationState
  | [],_,s => s
  | directive :: rest,encountered,s =>
    if directive.kind ∈ encountered then
      validateDirectives rest encountered (s.addServerError .duplicateServerDirective directive directive.location)
    else validateDirectives rest (directive.kind :: encountered) (s.validateServerDirective directive)

def validateThreadingRelationship (s : ValidationState) (closingBraceLocation : SourceLocation) : ValidationState :=
  if s.multithreadingEnabled then
    match s.workerThreadsDirective with
    | none =>
      s.addError { code := .missingWorkerThreads,location := closingBraceLocation,serverDirective := some .workerThreads }
    | some directive =>
      s.check (!(s.workerThreads.toNat < minimumWorkerThreads || maximumWorkerThreads < s.workerThreads.toNat))
        .workerThreadsOutOfRange directive
  else
    match s.workerThreadsDirective with
    | some directive => s.addServerError .unexpectedWorkerThreads directive directive.location
    | none => s

/-- A proxy is unexpected outside of the proxy mode. -/
def rejectTrustedProxy (s : ValidationState) : ValidationState :=
  match s.trustedProxyDirective with
  | some directive => s.addServerError .unexpectedTrustedProxy directive directive.location
  | none => s

/-- The bind directive, if there is one, is unsafe. -/
def rejectBind (s : ValidationState) (unsafeBind : Bool) : ValidationState :=
  match s.bindDirective with
  | some directive => s.check (!unsafeBind) .unsafeTransportBind directive
  | none => s

def validateTransportRelationship (s : ValidationState) (closingBraceLocation : SourceLocation) : ValidationState :=
  if !s.transportModeValid then s
  else
    match s.server.transportMode with
    | .loopbackHttp => (s.rejectBind (!isLoopbackIpAddress s.bindAddress)).rejectTrustedProxy
    | .trustedLanHttp => s.rejectTrustedProxy
    | .trustedProxyHttps =>
      let s := match s.trustedProxyDirective with
        | none =>
          s.addError { code := .missingTrustedProxy,location := closingBraceLocation,
                       serverDirective := some .trustedProxy }
        | some _ => s
      s.rejectBind (isUnspecifiedIpAddress s.bindAddress)

def validateServerDirectives (s : ValidationState) (server : ParsedServerBlock) : ValidationState :=
  ((validateDirectives server.directives [] s).validateThreadingRelationship
    server.closingBraceLocation).validateTransportRelationship server.closingBraceLocation

/-- `validate_location_identity`; the paths are those accepted before. -/
def validateLocationIdentity (s : ValidationState) (location : ParsedLocationBlock) (paths : List Bytes) :
    ValidationState × List Bytes :=
  if !isValidLocationPath location.apiPath then
    (s.addError { code := .invalidLocationPath,location := location.apiPathLocation,
                  locationPath := some location.apiPath },paths)
  else if paths.any (fun path => locationPathsConflict path location.apiPath) then
    (s.addError { code := .conflictingLocationPath,location := location.apiPathLocation,
                  locationPath := some location.apiPath },paths)
  else (s,paths ++ [location.apiPath])

/-- The loop of `validate_location_directives`. -/
def walkLocationDirectives (location : ParsedLocationBlock) : List ParsedLocationDirective →
    (encountered : List LocationDirectiveKind) → ValidationState → LocationSettings → Option ParsedLocationDirective →
    ValidationState × LocationSettings × Option ParsedLocationDirective
  | [],_,s,settings,path => (s,settings,path)
  | directive :: rest,encountered,s,settings,path =>
    if directive.kind ∈ encountered then
      walkLocationDirectives location rest encountered (s.addError
        { code := .duplicateLocationDirective,location := directive.location,
          locationDirective := some directive.kind,locationPath := some location.apiPath }) settings path
    else
      let encountered := directive.kind :: encountered
      match directive.kind with
      | .path => walkLocationDirectives location rest encountered s settings (some directive)
      | .readPermission =>
        walkLocationDirectives location rest encountered s
          { settings with allowRead := directive.value.scalar.flag } path
      | .writePermission =>
        walkLocationDirectives location rest encountered s
          { settings with allowWrite := directive.value.scalar.flag } path
      | .deletePermission =>
        walkLocationDirectives location rest encountered s
          { settings with allowDelete := directive.value.scalar.flag } path

def validateLocationRoot (s : ValidationState) (location : ParsedLocationBlock)
    (pathDirective : Option ParsedLocationDirective) : ValidationState × Option ConfiguredPath :=
  match pathDirective with
  | none =>
    (s.addError { code := .missingLocationRoot,location := location.closingBraceLocation,
                  locationDirective := some .path,locationPath := some location.apiPath },none)
  | some directive =>
    let text := directive.value.scalar.text
    if text.isEmpty then
      (s.addError { code := .invalidLocationRoot,location := directive.value.location,
                    locationDirective := some .path,locationPath := some location.apiPath },none)
    else (s,some ⟨text,directive.value.location⟩)

def validateLocationDirectives (s : ValidationState) (location : ParsedLocationBlock) : ValidationState :=
  let (s,settings,path) := walkLocationDirectives location location.directives [] s { apiPath := location.apiPath } none
  match s.validateLocationRoot location path with
  | (s,some root) => { s with server := { s.server with locations := s.server.locations ++ [{ settings with root }] } }
  | (s,none) => s

/-- The loop of `validate_locations`. -/
def walkLocations : List ParsedLocationBlock → (paths : List Bytes) → ValidationState → ValidationState
  | [],_,s => s
  | location :: rest,paths,s =>
    let (s,paths) := s.validateLocationIdentity location paths
    walkLocations rest paths (s.validateLocationDirectives location)

def validateLocations (s : ValidationState) (server : ParsedServerBlock) : ValidationState :=
  if server.locations.isEmpty then
    s.addError { code := .missingLocation,location := server.closingBraceLocation }
  else walkLocations server.locations [] s

/-- The state after every rule, with the errors in the order of their places. -/
def validated (configuration : ParsedConfiguration) : ValidationState :=
  let s : ValidationState := { server := { location := configuration.server.location } }
  let s := (s.validateServerDirectives configuration.server).validateLocations configuration.server
  { s with errors := s.errors.mergeSort (fun a b => decide (a.location.byteOffset ≤ b.location.byteOffset)) }

end ValidationState

def validate (configuration : ParsedConfiguration) : Except (List ConfigValidationError) ValidatedConfiguration :=
  let s := ValidationState.validated configuration
  if s.errors.isEmpty then .ok ⟨configuration,⟨[s.server]⟩⟩ else .error s.errors

/-- The credential file that `resolve_credentials` resolves against the directory of the configuration. -/
def ServerSettings.credentials (configured : ServerSettings) : ConfiguredPath :=
  match configured.credentialsFile with
  | some path => path
  | none => ⟨ascii "credentials.conf",configured.location⟩

end SpareNode.Configuration
