import SpareNode.Bootstrap.AcceptedSettings

/-! # From the text to the plan

The loader and the bootstrap one after the other: the node that starts up is the one that the text describes, and a
refusal names what is missing.
-/
namespace SpareNode.Bootstrap
open LexicalPath FileTree Http Network Filesystem Authentication
open SpareNode.Configuration (SourceLocation SourceFile LocationSettings ServerSettings LoadedConfiguration
  ConfigLoadError ParsedServerBlock ParsedLocationBlock ParsedConfiguration ServerItem Sets Effective Reflects ValidConfiguration
  ValidItems)

variable {host : Host} {sourcePath : Bytes} {settings : ServerSettings}

/-- A server of the plan is the written one: where it listens and whom it lets in, what its locations are, which media
types it announces, and the credential that it checks, out of the reach of every request. -/
structure ServerWritten (host : Host) (sourcePath : Bytes) (server : ParsedServerBlock)
    (authentication : AuthenticationService) (made : ServerConfig) : Prop where
  bind : Configuration.Bind server.given made.endpoint.address
  port : ∃ port : UInt16, made.endpoint.port = port.toNat ∧
    Effective server.given .port (fun port : UInt16 => .integer port.toUInt64) 8080 port
  mode : ∃ mode, made.transportPolicy.mode = mapTransportMode mode ∧ Configuration.Mode server.given mode
  trustedProxy : ∀ text, made.transportPolicy.trustedProxy = some text ↔ Sets server.given .trustedProxy (.string text)
  locations : List.Forall₂ (LocationWritten host sourcePath) server.locations made.locations
  media : ∃ source, MediaSource host sourcePath server source ∧
    ∀ path served, made.mimeTypes.contentTypeForPath path = served ↔ Serves source path served
  credential : ∃ text verifier file,
    Effective server.given .credentialsFile .string (ascii "credentials.conf") text ∧
    Credential host (writtenPath sourcePath text) (· ∈ made.locations.map LocationConfig.root) verifier file
      authentication ∧
    Unreachable host.tree (made.locations.map LocationConfig.root) file

theorem build_written {configuration parsed : ParsedConfiguration} {plan : RuntimePlan}
    (hvalid : ValidConfiguration configuration) (h : Reflects configuration.server settings)
    (hplan : build host ⟨sourcePath,⟨parsed,⟨[settings]⟩⟩⟩ = .ok plan) :
    ∃ made, plan.servers = [made] ∧ ServerWritten host sourcePath configuration.server plan.authentication made ∧
      Accepts made := by
  obtain ⟨made,mimeTypes,hmade,hmime,hservice,-,-,hservers⟩ := build_iff.mp hplan
  have hwritten := locations_written h.locations (buildLocations_iff.mp hmade)
  have hroots := made_roots hwritten
  obtain ⟨verifier,file,hcredential⟩ := (createFileAuthenticationService_iff hroots).mp hservice
  obtain ⟨source,hsource,hparse⟩ := (loadMimeTypes_iff h).mp hmime
  refine ⟨_,hservers,?_,serverConfig_accepts hvalid h hwritten⟩
  refine ⟨h.bindAddress,⟨_,rfl,h.port⟩,⟨_,rfl,h.transportMode⟩,h.trustedProxy,hwritten,⟨source,hsource,?_⟩,
    ⟨_,verifier,file,effective_credentials h,hcredential,hcredential.unreachable hroots⟩⟩
  intro path served
  constructor
  · rintro rfl
    obtain ⟨served,hserves⟩ := exists_serves source path
    have htype : mimeTypes.contentTypeForPath path = served := contentType_of_serves hparse hserves
    exact htype ▸ hserves
  · exact contentType_of_serves hparse

/-- What the host lacks when the bootstrap fails: the error names the text that asked for it, by its place. -/
inductive Missing (host : Host) (sourcePath : Bytes) (server : ParsedServerBlock) : RuntimeBootstrapError → Prop
  | root {location : ParsedLocationBlock} {text : Bytes} {place : SourceLocation} {detail : SharedRootError} :
    location ∈ server.locations → (.path,⟨.string text,place⟩) ∈ location.given →
    (∀ root, ¬Leads host.tree (writtenPath sourcePath text) root) →
    Missing host sourcePath server
      ⟨.invalidLocationRoot,Path.ofText sourcePath,place,some detail,none,none⟩
  | media {text : Bytes} {place : SourceLocation} {detail : MimeTypesLoadError} :
    (.mimeTypesFile,⟨.string text,place⟩) ∈ server.given →
    (∀ source, host.files (writtenPath sourcePath text) = .readable source → ¬WellFormed source) →
    Missing host sourcePath server
      ⟨.mimeTypesLoadFailed,writtenPath sourcePath text,place,none,some detail,none⟩
  | credential {text : Bytes} {place : SourceLocation} {code : FileAuthenticationErrorCode} :
    (.credentialsFile,⟨.string text,place⟩) ∈ server.given ∨
      (text = ascii "credentials.conf" ∧ place = server.location ∧ ∀ scalar, ¬Sets server.given .credentialsFile scalar) →
    (∀ verifier file service,
      ¬Credential host (writtenPath sourcePath text) (IsRoot host sourcePath server) verifier file service) →
    Missing host sourcePath server
      ⟨.authenticationFailed,writtenPath sourcePath text,place,none,none,some code⟩
  | sessions : host.sessionCodec = false →
    Missing host sourcePath server { code := .sessionInitializationFailed }

section Failures
variable {server : ParsedServerBlock} {failure : RuntimeBootstrapError}

theorem buildLocations_error {configured : List LocationSettings}
    (h : buildLocations host sourcePath configured = .error failure) :
    ∃ location ∈ configured, ∃ detail,
      (∀ root, ¬Leads host.tree (writtenPath sourcePath location.root.value) root) ∧
      failure = ⟨.invalidLocationRoot,Path.ofText sourcePath,location.root.location,some detail,none,none⟩ := by
  induction configured with
  | nil => cases h
  | cons location rest ih =>
    rw [buildLocations] at h
    split at h
    · rename_i detail hroot
      refine ⟨location,List.mem_cons_self,detail,fun root hleads => ?_,(Except.error.inj h).symm⟩
      have hcreate : SharedRoot.create host.tree (resolvePath location.root sourcePath) = .ok root :=
        create_iff.mpr hleads
      rw [hroot] at hcreate
      cases hcreate
    · split at h
      · rename_i hrest
        obtain rfl := Except.error.inj h
        obtain ⟨other,hmem,hother⟩ := ih hrest
        exact ⟨other,List.mem_cons_of_mem _ hmem,hother⟩
      · cases h

theorem loadMimeTypes_error (h : Reflects server settings)
    (hload : loadMimeTypes host settings sourcePath = .error failure) :
    Missing host sourcePath server failure := by
  rw [loadMimeTypes] at hload
  split at hload
  · cases hload
  · rename_i configured hsome
    split at hload
    · rename_i detail herror
      obtain rfl := Except.error.inj hload
      refine .media ((h.mimeTypesFile configured).mp hsome) ?_
      intro source hfile hformed
      have hread : host.files (resolvePath configured sourcePath) = .readable source := hfile
      obtain ⟨registry,hregistry⟩ := exists_parse hformed
      rw [hread,load_readable,hregistry] at herror
      cases herror
    · cases hload

theorem build_error {configuration parsed : ParsedConfiguration} (hvalid : ValidConfiguration configuration)
    (h : Reflects configuration.server settings)
    (hbuild : build host ⟨sourcePath,⟨parsed,⟨[settings]⟩⟩⟩ = .error failure) :
    Missing host sourcePath configuration.server failure := by
  simp only [build,buildServers] at hbuild
  cases hmade : buildLocations host sourcePath settings.locations with
  | error error =>
    rw [hmade] at hbuild
    obtain rfl := Except.error.inj hbuild
    obtain ⟨configured,hmem,detail,hleads,rfl⟩ := buildLocations_error hmade
    obtain ⟨location,hlocation,hreflects⟩ := exists_related h.locations configured hmem
    exact .root hlocation hreflects.root hleads
  | ok made =>
    cases hmime : loadMimeTypes host settings sourcePath with
    | error error =>
      rw [hmade,hmime] at hbuild
      obtain rfl := Except.error.inj hbuild
      exact loadMimeTypes_error h hmime
    | ok mimeTypes =>
      simp only [hmade,hmime,List.nil_append,resolveCredentials_eq] at hbuild
      have hwritten := locations_written h.locations (buildLocations_iff.mp hmade)
      split at hbuild
      · rename_i code hservice
        obtain rfl := Except.error.inj hbuild
        refine .credential (h.credentials.imp_right fun hdefault => ?_) ?_
        · rw [hdefault.1]
          exact ⟨rfl,rfl,hdefault.2⟩
        intro verifier file service hcredential
        have hcreated := (credential_iff hvalid.locations hwritten).mpr ⟨verifier,file,hcredential⟩
        rw [hservice] at hcreated
        cases hcreated
      · split at hbuild
        · rename_i code hsessions
          obtain rfl := Except.error.inj hbuild
          cases hcodec : host.sessionCodec with
          | false =>
            rw [buildSessions,hcodec] at hsessions
            obtain rfl := Except.error.inj hsessions
            exact .sessions hcodec
          | true =>
            obtain ⟨sessions,hok⟩ := buildSessions_ok.mpr hcodec
            rw [hsessions] at hok
            cases hok
        · cases hbuild

end Failures

theorem startUp_ok {source : SourceFile} {plan : RuntimePlan} :
    startUp host source sourcePath = .ok plan ↔
      ∃ loaded, Configuration.load source sourcePath = .ok loaded ∧ build host loaded = .ok plan := by
  rw [startUp]
  cases hload : Configuration.load source sourcePath with
  | error error => simp
  | ok loaded => cases hbuild : build host loaded <;> simp [hbuild]

theorem startUp_configuration {source : SourceFile} {error : ConfigLoadError}
    (h : startUp host source sourcePath = .error (.configuration error)) :
    Configuration.load source sourcePath = .error error := by
  rw [startUp] at h
  split at h
  · rename_i hload
    cases h
    exact hload
  · split at h <;> cases h

theorem startUp_bootstrap {source : SourceFile} {failure : RuntimeBootstrapError}
    (h : startUp host source sourcePath = .error (.bootstrap failure)) :
    ∃ loaded, Configuration.load source sourcePath = .ok loaded ∧ build host loaded = .error failure := by
  rw [startUp] at h
  split at h
  · cases h
  · rename_i loaded hload
    split at h
    · rename_i hbuild
      cases h
      exact ⟨loaded,hload,hbuild⟩
    · cases h

/-- A plan is made exactly when the file holds a valid configuration and the host has what the text names. It is the
written one, whose parts accept what they are given; a refusal names what is missing. -/
theorem startUp_as_written (host : Host) (source : SourceFile) (sourcePath : Bytes) :
    ((∃ plan, startUp host source sourcePath = .ok plan) ↔
      ∃ (items : List ServerItem) (configuration : ParsedConfiguration), Configuration.Holds source items ∧
        configuration.Holds items ∧ ValidConfiguration configuration ∧
        Provided host sourcePath configuration.server) ∧
    (∀ plan, startUp host source sourcePath = .ok plan →
      ∃ (items : List ServerItem) (configuration : ParsedConfiguration) (made : ServerConfig),
        Configuration.Holds source items ∧ configuration.Holds items ∧ ValidConfiguration configuration ∧
        plan.servers = [made] ∧ ServerWritten host sourcePath configuration.server plan.authentication made ∧
        Accepts made) ∧
    (∀ error, startUp host source sourcePath = .error (.configuration error) →
      error.sourcePath = sourcePath ∧ ¬∃ items, Configuration.Holds source items ∧ ValidItems items) ∧
    ∀ failure, startUp host source sourcePath = .error (.bootstrap failure) →
      ∃ (items : List ServerItem) (configuration : ParsedConfiguration), Configuration.Holds source items ∧
        configuration.Holds items ∧ ValidConfiguration configuration ∧
        Missing host sourcePath configuration.server failure := by
  have hread {loaded : LoadedConfiguration} (hload : Configuration.load source sourcePath = .ok loaded) :
      ∃ items settings parsed, Configuration.Holds source items ∧ parsed.Holds items ∧ ValidConfiguration parsed ∧
        Reflects parsed.server settings ∧ loaded = ⟨sourcePath,⟨parsed,⟨[settings]⟩⟩⟩ := by
    obtain ⟨path,⟨parsed,⟨servers⟩⟩⟩ := loaded
    obtain ⟨rfl,items,settings,hsource,hloaded⟩ := Configuration.load_ok hload
    obtain rfl : servers = [settings] := hloaded.servers
    exact ⟨items,settings,parsed,hsource,hloaded.holds,hloaded.valid,hloaded.reflects,rfl⟩
  refine ⟨⟨?_,?_⟩,?_,?_,?_⟩
  · rintro ⟨plan,h⟩
    obtain ⟨loaded,hload,hbuild⟩ := startUp_ok.mp h
    obtain ⟨items,settings,parsed,hsource,hholds,hvalid,hreflects,rfl⟩ := hread hload
    exact ⟨items,parsed,hsource,hholds,hvalid,(provided_iff hvalid hreflects).mp ⟨plan,hbuild⟩⟩
  · rintro ⟨items,configuration,hsource,hholds,hvalid,hprovided⟩
    obtain ⟨⟨path,⟨parsed,⟨servers⟩⟩⟩,settings,hload,hloaded⟩ :=
      Configuration.load_accepts hsource ⟨configuration,hholds,hvalid⟩ sourcePath
    obtain rfl : path = sourcePath := (Configuration.load_ok hload).1
    obtain rfl : servers = [settings] := hloaded.servers
    have hsame := Configuration.reordered_of_holds hholds hloaded.holds
    obtain ⟨plan,hbuild⟩ := (provided_iff hloaded.valid hloaded.reflects).mpr (hprovided.reordered hsame)
    exact ⟨plan,startUp_ok.mpr ⟨_,hload,hbuild⟩⟩
  · intro plan h
    obtain ⟨loaded,hload,hbuild⟩ := startUp_ok.mp h
    obtain ⟨items,settings,parsed,hsource,hholds,hvalid,hreflects,rfl⟩ := hread hload
    obtain ⟨made,hservers,hwritten,haccepts⟩ := build_written hvalid hreflects hbuild
    exact ⟨items,parsed,made,hsource,hholds,hvalid,hservers,hwritten,haccepts⟩
  · intro error h
    have hload := startUp_configuration h
    refine ⟨Configuration.load_error hload,fun hitems => ?_⟩
    obtain ⟨loaded,hok⟩ := Configuration.load_accepts_iff.mpr hitems
    rw [hload] at hok
    cases hok
  · intro failure h
    obtain ⟨loaded,hload,hbuild⟩ := startUp_bootstrap h
    obtain ⟨items,settings,parsed,hsource,hholds,hvalid,hreflects,rfl⟩ := hread hload
    exact ⟨items,parsed,hsource,hholds,hvalid,build_error hvalid hreflects hbuild⟩

/-- A shared directory beside the one of the configuration. -/
def filesTree : Tree where
  kind ns :=
    if ns = [] ∨ ns = [ascii "srv"] ∨ ns = [ascii "conf"] then some .directory
    else if ns = [ascii "conf",ascii "credentials.conf"] then some .regular
    else none
  root := by decide +kernel
  workingDirectory := []
  working := canonical_nil (by decide +kernel)
  linkDepth := 40

def filesHost : Host where
  tree := filesTree
  files _ := .unopened
  contents _ := credentialSource (ascii "owner") (ascii "x")
  verifier := some ⟨fun _ => .ok [],fun _ => true⟩
  sessionCodec := true

def filesText : Bytes := ascii "server \x7b location \"/files\" \x7b path \"../srv\"; \x7d \x7d"

theorem startUp_as_written_files : ∃ plan made,
    startUp filesHost (.readable filesText) (ascii "/conf/spnode.conf") = .ok plan ∧ plan.servers = [made] ∧
      Accepts made := by
  have hstart : (startUp filesHost (.readable filesText) (ascii "/conf/spnode.conf")).toOption.isSome = true := by
    decide +kernel
  cases hplan : startUp filesHost (.readable filesText) (ascii "/conf/spnode.conf") with
  | error error =>
    rw [hplan] at hstart
    cases hstart
  | ok plan =>
    obtain ⟨-,-,made,-,-,-,hservers,-,haccepts⟩ := (startUp_as_written filesHost _ _).2.1 plan hplan
    exact ⟨plan,made,rfl,hservers,haccepts⟩

end SpareNode.Bootstrap
