import SpareNode.Application.FilesystemService
import SpareNode.Application.LocationRouting
import SpareNode.Authentication.FileAuthentication
import SpareNode.Bootstrap.MimeTypesSource
import SpareNode.Configuration.ConfigLoader
import SpareNode.Http.Transport.ConnectionHandler
import SpareNode.Logging.Logger

/-! # The runtime bootstrap

A loaded configuration becomes a plan: its paths are resolved against the directory of the configuration file, the
roots, the media types and the credential are taken from there, and the settings go into the configurations of the
parts. A plan is made exactly when the host provides what the text names, and the parts accept what they are given.
-/
namespace SpareNode.Bootstrap
open LexicalPath FileTree Http Network Filesystem Authentication
open Application (LocationPermissions)
open Session (SessionStore)
open Logging (LogSeverity)
open SpareNode.Configuration (SourceLocation SourceFile ConfiguredPath ConfiguredLogLevel ConfiguredTransportMode
  LocationSettings ServerSettings LoadedConfiguration ConfigLoadError)

def load : SourceFile → Except MimeTypesLoadError MimeTypeRegistry
  | .unopened => .error ⟨.openFailed,1⟩
  | .unreadable => .error ⟨.readFailed,1⟩
  | .readable contents =>
    let source := contents.take (maximumFileBytes + 1)
    if maximumFileBytes < source.length then .error ⟨.fileTooLarge,1⟩ else parse source

inductive RuntimeBootstrapErrorCode where
  | invalidLocationRoot | mimeTypesLoadFailed | authenticationFailed | sessionInitializationFailed
  | resourceAllocationFailed
deriving DecidableEq, Repr

structure RuntimeBootstrapError where
  code : RuntimeBootstrapErrorCode := .invalidLocationRoot
  sourcePath : Path := Path.ofText []
  location : SourceLocation := {}
  sharedRootError : Option SharedRootError := none
  mimeTypesError : Option MimeTypesLoadError := none
  authenticationError : Option FileAuthenticationErrorCode := none

structure LocationConfig where
  apiPath : Bytes
  root : SharedRoot
  permissions : LocationPermissions

structure ServerConfig where
  endpoint : TcpEndpoint
  multithreadingEnabled : Bool
  workerThreads : UInt64
  minimumLogSeverity : LogSeverity
  locations : List LocationConfig
  httpTimeouts : HttpRequestTimeouts := {}
  responseTimeout : ℤ := 5 * 60 * 1000
  mimeTypes : MimeTypeRegistry
  transportPolicy : HttpTransportPolicy := {}
  credentialsFile : Path

def ServerConfig.effectiveWorkerCount (server : ServerConfig) : UInt64 :=
  if server.multithreadingEnabled then server.workerThreads else 1

structure RuntimePlan where
  servers : List ServerConfig
  authentication : AuthenticationService
  sessions : SessionStore
  processLogSeverity : LogSeverity

/-- What the bootstrap meets on its host: the files, and the uses of libsodium that it can make. -/
structure Host where
  tree : Tree
  files : Path → SourceFile
  contents : Path → Bytes
  verifier : Option PasswordVerifier
  sessionCodec : Bool

def resolvePath (configured : ConfiguredPath) (configurationPath : Bytes) : Path :=
  let path := Path.ofText configured.value
  if path.rooted then path else (Path.ofText configurationPath).parentPath.append path

def mapLogLevel : ConfiguredLogLevel → LogSeverity
  | .debug => .debug
  | .info => .info
  | .warning => .warning
  | .error => .error

def mapTransportMode : ConfiguredTransportMode → HttpTransportMode
  | .loopbackHttp => .loopbackHttp
  | .trustedLanHttp => .trustedLanHttp
  | .trustedProxyHttps => .trustedProxyHttps

/-- `std::chrono::milliseconds` of a count, which is signed. -/
def chronoMilliseconds (count : UInt64) : ℤ := count.toBitVec.toInt

def resolveCredentials (configured : ServerSettings) (configurationPath : Bytes) : Path × SourceLocation :=
  match configured.credentialsFile with
  | some path => (resolvePath path configurationPath,path.location)
  | none => ((Path.ofText configurationPath).parentPath.append (Path.ofText (ascii "credentials.conf")),
      configured.location)

variable (host : Host)

def buildLocations (sourcePath : Bytes) : List LocationSettings → Except RuntimeBootstrapError (List LocationConfig)
  | [] => .ok []
  | location :: rest =>
    match SharedRoot.create host.tree (resolvePath location.root sourcePath) with
    | .error failure => .error
        { code := .invalidLocationRoot
          sourcePath := Path.ofText sourcePath
          location := location.root.location
          sharedRootError := some failure }
    | .ok root =>
      match buildLocations sourcePath rest with
      | .error failure => .error failure
      | .ok locations =>
        .ok (⟨location.apiPath,root,⟨location.allowRead,location.allowWrite,location.allowDelete⟩⟩ :: locations)

def loadMimeTypes (configured : ServerSettings) (sourcePath : Bytes) :
    Except RuntimeBootstrapError MimeTypeRegistry :=
  match configured.mimeTypesFile with
  | none => .ok noMimeTypes
  | some path =>
    match load (host.files (resolvePath path sourcePath)) with
    | .error failure => .error
        { code := .mimeTypesLoadFailed
          sourcePath := resolvePath path sourcePath
          location := path.location
          mimeTypesError := some failure }
    | .ok mimeTypes => .ok mimeTypes

/-- The configuration of one server, from its settings and what was made for it. -/
def serverConfig (configured : ServerSettings) (locations : List LocationConfig) (mimeTypes : MimeTypeRegistry)
    (credentialsPath : Path) : ServerConfig where
  endpoint := ⟨configured.bindAddress,configured.port.toNat⟩
  multithreadingEnabled := configured.multithreadingEnabled
  workerThreads := configured.workerThreads
  minimumLogSeverity := mapLogLevel configured.logLevel
  locations := locations
  httpTimeouts := ⟨chronoMilliseconds configured.headerTimeoutMs,chronoMilliseconds configured.bodyTimeoutMs,
    chronoMilliseconds configured.requestTimeoutMs⟩
  responseTimeout := chronoMilliseconds configured.responseTimeoutMs
  mimeTypes := mimeTypes
  transportPolicy := ⟨mapTransportMode configured.transportMode,configured.trustedProxy⟩
  credentialsFile := credentialsPath

/-- What the loop of `build` carries from server to server. -/
structure Construction where
  servers : List ServerConfig := []
  authenticationRoots : List SharedRoot := []
  credentialsPath : Path := Path.ofText []
  credentialsLocation : SourceLocation := {}
  processLogSeverity : Option LogSeverity := none

def buildServers (sourcePath : Bytes) :
    List ServerSettings → Construction → Except RuntimeBootstrapError Construction
  | [],construction => .ok construction
  | configured :: rest,construction =>
    match buildLocations host sourcePath configured.locations with
    | .error failure => .error failure
    | .ok locations =>
      match loadMimeTypes host configured sourcePath with
      | .error failure => .error failure
      | .ok mimeTypes =>
        let credentials := resolveCredentials configured sourcePath
        buildServers sourcePath rest
          { servers := construction.servers ++ [serverConfig configured locations mimeTypes credentials.1]
            authenticationRoots := construction.authenticationRoots ++ locations.map LocationConfig.root
            credentialsPath := credentials.1
            credentialsLocation := credentials.2
            processLogSeverity := some (construction.processLogSeverity.getD (mapLogLevel configured.logLevel)) }

def buildSessions : Except RuntimeBootstrapErrorCode SessionStore :=
  if !host.sessionCodec then .error .sessionInitializationFailed
  else
    match SessionStore.create {} with
    | .error _ => .error .sessionInitializationFailed
    | .ok sessions => .ok sessions

/-- `RuntimeBootstrap::build`; allocation does not fail. -/
def build (loaded : LoadedConfiguration) : Except RuntimeBootstrapError RuntimePlan :=
  match buildServers host loaded.sourcePath loaded.configuration.settings.servers {} with
  | .error failure => .error failure
  | .ok construction =>
    match createFileAuthenticationService host.tree host.contents construction.credentialsPath
        construction.authenticationRoots host.verifier with
    | .error code => .error
        { code := .authenticationFailed
          sourcePath := construction.credentialsPath
          location := construction.credentialsLocation
          authenticationError := some code }
    | .ok authentication =>
      match buildSessions host with
      | .error code => .error { code := code }
      | .ok sessions =>
        .ok ⟨construction.servers,authentication,sessions,construction.processLogSeverity.getD .info⟩

/-- The two stages of `run_server` before it composes the servers. -/
inductive StartUpFailure where
  | configuration (error : ConfigLoadError)
  | bootstrap (error : RuntimeBootstrapError)

def startUp (file : SourceFile) (sourcePath : Bytes) : Except StartUpFailure RuntimePlan :=
  match Configuration.load file sourcePath with
  | .error error => .error (.configuration error)
  | .ok loaded =>
    match build host loaded with
    | .error error => .error (.bootstrap error)
    | .ok plan => .ok plan

/-- The handler configuration that `make_server_runtime_plan` gives to a server. -/
def ServerConfig.handlerConfig (server : ServerConfig) : HttpConnectionHandlerConfig where
  bodyStoragePolicySelector := some authenticationBodyStoragePolicy
  timeouts := server.httpTimeouts
  responseTimeout := server.responseTimeout
  transportPolicy := server.transportPolicy

end SpareNode.Bootstrap
