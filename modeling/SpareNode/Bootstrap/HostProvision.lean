import SpareNode.Bootstrap.RuntimeBootstrap

/-! # What the host provides

The bootstrap asks its host for what the text of the configuration names: directories, a file of media types and a
credential. A plan of valid settings is made exactly when all of it is there, in whatever order the text names it.
-/
namespace SpareNode.Bootstrap
open LexicalPath FileTree Http Network Filesystem Authentication
open Session (SessionStore)
open SpareNode.Configuration (LocationSettings ServerSettings ParsedServerBlock ParsedLocationBlock ParsedConfiguration
  Sets Effective Reflects LocationReflects ValidConfiguration Reordered)

variable (host : Host)

/-- The path that a text of the configuration means. -/
def writtenPath (sourcePath text : Bytes) : Path := resolvePath ⟨text,{}⟩ sourcePath

/-- The root is the directory that a path leads to. -/
def Leads (tree : Tree) (path : Path) (root : SharedRoot) : Prop :=
  canonical tree path = .ok root.path ∧ tree.kind root.names = some .directory

/-- The directories that the locations of a server are rooted at. -/
def IsRoot (sourcePath : Bytes) (server : ParsedServerBlock) (root : SharedRoot) : Prop :=
  ∃ location ∈ server.locations, ∃ text, Sets location.given .path (.string text) ∧
    Leads host.tree (writtenPath sourcePath text) root

/-- The text of the MIME types file; no file is as good as an empty one. -/
def MediaSource (sourcePath : Bytes) (server : ParsedServerBlock) (source : Bytes) : Prop :=
  (∃ text, Sets server.given .mimeTypesFile (.string text) ∧
    host.files (writtenPath sourcePath text) = .readable source) ∨
  source = [] ∧ ∀ text, ¬Sets server.given .mimeTypesFile (.string text)

/-- A credential file that the verifier takes, in a directory below none of the roots. -/
structure Credential (path : Path) (Root : SharedRoot → Prop) (verifier : PasswordVerifier) (file : Path)
    (service : AuthenticationService) : Prop where
  verifies : host.verifier = some verifier
  resolves : resolveCredentialPath host.tree path = .ok file
  outside : ∀ root, Root root → ¬root.path.elements <+: file.parentPath.elements
  regular : symlinkStatus host.tree file = .ok .regular
  size : (host.contents file).length ≤ maximumCredentialFileBytes
  credential : createFromSource (host.contents file) verifier = .ok service.credential
  dummyVerifier : verifier.hash dummyPassword = .ok service.dummyVerifier

/-- The host has everything that the text of a configuration names. -/
structure Provided (sourcePath : Bytes) (server : ParsedServerBlock) : Prop where
  roots : ∀ location ∈ server.locations, ∃ text root, Sets location.given .path (.string text) ∧
    Leads host.tree (writtenPath sourcePath text) root
  media : ∃ source, MediaSource host sourcePath server source ∧ WellFormed source
  credential : ∃ text verifier file service,
    Effective server.given .credentialsFile .string (ascii "credentials.conf") text ∧
    Credential host (writtenPath sourcePath text) (IsRoot host sourcePath server) verifier file service
  sessions : host.sessionCodec = true

/-- A location of the plan is the configured one. -/
structure LocationRuns (sourcePath : Bytes) (settings : LocationSettings) (location : LocationConfig) : Prop where
  apiPath : location.apiPath = settings.apiPath
  leads : Leads host.tree (writtenPath sourcePath settings.root.value) location.root
  permissions : location.permissions = ⟨settings.allowRead,settings.allowWrite,settings.allowDelete⟩

variable {host} {tree : Tree} {path file : Path} {root : SharedRoot} {roots : List SharedRoot} {sourcePath : Bytes}
  {settings : ServerSettings} {service : AuthenticationService}

theorem eq_of_path {a b : SharedRoot} (h : a.path = b.path) : a = b := by
  cases a
  cases b
  cases h
  rfl

theorem create_iff : SharedRoot.create tree path = .ok root ↔ Leads tree path root := by
  constructor
  · intro h
    refine ⟨?_,(SharedRoot.create_spec h).2⟩
    unfold SharedRoot.create at h
    split at h
    · cases h
    · split at h
      · cases h
      · cases h
      · rename_i ns hresolve
        have hcanonical : canonical tree path = .ok (Path.absolute ns) := by rw [canonical,hresolve]
        split at h
        · cases h
          exact hcanonical
        · cases h
  · rintro ⟨hcanonical,hdirectory⟩
    obtain ⟨ns,hroot,hns⟩ := canonical_eq_ok hcanonical
    have hnames : root.names = ns := by
      rw [SharedRoot.names,hroot,(Path.absolute_spec hns.proper).2.1]
    rw [hnames] at hdirectory
    unfold SharedRoot.create
    split
    · rename_i hempty
      rw [canonical,FileTree.resolve,if_pos hempty] at hcanonical
      cases hcanonical
    · split
      · rename_i hresolve
        rw [canonical,hresolve] at hcanonical
        cases hcanonical
      · rename_i hresolve
        rw [canonical,hresolve] at hcanonical
        cases hcanonical
      · rename_i ms hresolve
        rw [canonical,hresolve] at hcanonical
        have hsame : Path.absolute ms = root.path := Except.ok.inj hcanonical
        have hms := resolve_canonical hresolve
        have hmsnames := congrArg Path.names (hsame.trans hroot)
        rw [(Path.absolute_spec hms.proper).2.1,(Path.absolute_spec hns.proper).2.1] at hmsnames
        rw [if_pos ((isDirectory_absolute hms).mpr (hmsnames ▸ hdirectory))]
        exact congrArg Except.ok (eq_of_path hsame)

theorem buildLocations_iff {configured : List LocationSettings} {locations : List LocationConfig} :
    buildLocations host sourcePath configured = .ok locations ↔
      List.Forall₂ (LocationRuns host sourcePath) configured locations := by
  induction configured generalizing locations with
  | nil => simp [buildLocations,eq_comm]
  | cons location rest ih =>
    rw [buildLocations]
    constructor
    · intro h
      split at h
      · cases h
      · rename_i root hroot
        split at h
        · cases h
        · rename_i tail htail
          cases h
          exact .cons ⟨rfl,create_iff.mp hroot,rfl⟩ (ih.mp htail)
    · intro h
      cases h with
      | @cons _ made _ tail hmade htail =>
        have hroot : SharedRoot.create host.tree (resolvePath location.root sourcePath) = .ok made.root :=
          create_iff.mpr hmade.leads
        rw [hroot]
        dsimp only
        rw [ih.mpr htail,← hmade.apiPath,← hmade.permissions]

theorem exists_forall₂ {α β : Type*} {R : α → β → Prop} {as : List α} (h : ∀ a ∈ as, ∃ b, R a b) :
    ∃ bs, List.Forall₂ R as bs := by
  induction as with
  | nil => exact ⟨[],.nil⟩
  | cons a as ih =>
    rw [List.forall_mem_cons] at h
    obtain ⟨b,hb⟩ := h.1
    obtain ⟨bs,hbs⟩ := ih h.2
    exact ⟨b :: bs,.cons hb hbs⟩

theorem exists_related {α β : Type*} {R : α → β → Prop} {as : List α} {bs : List β} (h : List.Forall₂ R as bs) :
    ∀ b ∈ bs, ∃ a ∈ as, R a b := by
  induction h with
  | nil => simp
  | cons hab _ ih =>
    intro b hb
    rcases List.mem_cons.mp hb with rfl | hb
    · exact ⟨_,List.mem_cons_self,hab⟩
    · obtain ⟨a,ha,hab⟩ := ih b hb
      exact ⟨a,List.mem_cons_of_mem _ ha,hab⟩

theorem load_readable (text : Bytes) : load (.readable text) = parse text := by
  dsimp only [load]
  rw [List.length_take]
  split
  · rw [parse,if_pos (by omega)]
  · rw [List.take_of_length_le (by omega)]

theorem listings_nil : listings [] = [] := by decide

theorem wellFormed_nil : WellFormed [] where
  size := by decide
  readable := by
    intro text htext
    have hlines : sourceLines [] = [[]] := by decide
    rw [hlines,List.mem_singleton] at htext
    rw [htext]
    exact ⟨by decide,by decide⟩
  valid := by simp [listings_nil]
  distinct := by simp [listings_nil]
  entries := by simp [listings_nil]

theorem exists_parse {source : Bytes} (h : WellFormed source) : ∃ registry, parse source = .ok registry := by
  cases hparse : parse source with
  | error error => exact absurd h (parse_rejects_iff.mp ⟨error,hparse⟩)
  | ok registry => exact ⟨registry,rfl⟩

theorem parse_nil : parse [] = .ok noMimeTypes := by
  obtain ⟨⟨mappings,sorted⟩,hparse⟩ := exists_parse wellFormed_nil
  have hmappings : mappings = ((listings []).map Listing.normalized).mergeSort _ := (parse_ok hparse).2
  rw [listings_nil,List.map_nil,List.mergeSort_nil] at hmappings
  subst hmappings
  exact hparse

section Settings
variable {server : ParsedServerBlock}

theorem sets_mimeTypesFile (h : Reflects server settings) {text : Bytes} :
    Sets server.given .mimeTypesFile (.string text) ↔
      ∃ configured, settings.mimeTypesFile = some configured ∧ configured.value = text := by
  constructor
  · rintro ⟨⟨-,location⟩,hmem,rfl⟩
    exact ⟨⟨text,location⟩,(h.mimeTypesFile _).mpr hmem,rfl⟩
  · rintro ⟨configured,hsome,rfl⟩
    exact ⟨_,(h.mimeTypesFile configured).mp hsome,rfl⟩

theorem loadMimeTypes_iff (h : Reflects server settings) {mimeTypes : MimeTypeRegistry} :
    loadMimeTypes host settings sourcePath = .ok mimeTypes ↔
      ∃ source, MediaSource host sourcePath server source ∧ parse source = .ok mimeTypes := by
  rw [loadMimeTypes]
  constructor
  · intro hload
    split at hload
    · rename_i hnone
      cases hload
      refine ⟨[],Or.inr ⟨rfl,fun text hsets => ?_⟩,parse_nil⟩
      obtain ⟨configured,hsome,-⟩ := (sets_mimeTypesFile h).mp hsets
      rw [hnone] at hsome
      cases hsome
    · rename_i configured hsome
      split at hload
      · cases hload
      · rename_i registry hregistry
        cases hload
        cases hfile : host.files (resolvePath configured sourcePath) with
        | unopened => rw [hfile] at hregistry; cases hregistry
        | unreadable => rw [hfile] at hregistry; cases hregistry
        | readable source =>
          rw [hfile,load_readable] at hregistry
          exact ⟨source,Or.inl ⟨_,(sets_mimeTypesFile h).mpr ⟨configured,hsome,rfl⟩,hfile⟩,hregistry⟩
  · rintro ⟨source,⟨text,hsets,hfile⟩ | ⟨rfl,hnone⟩,hparse⟩
    · obtain ⟨configured,hsome,rfl⟩ := (sets_mimeTypesFile h).mp hsets
      have hread : host.files (resolvePath configured sourcePath) = .readable source := hfile
      simp only [hsome,hread,load_readable,hparse]
    · cases hsome : settings.mimeTypesFile with
      | none =>
        exact congrArg Except.ok (Except.ok.inj (parse_nil.symm.trans hparse))
      | some configured =>
        exact absurd ((sets_mimeTypesFile h).mpr ⟨configured,hsome,rfl⟩) (hnone _)

end Settings

theorem loadCredential_iff {contents : Path → Bytes} {verifier : PasswordVerifier} {credential : CredentialRecord} :
    loadCredential tree contents file verifier = .ok credential ↔
      symlinkStatus tree file = .ok .regular ∧ (contents file).length ≤ maximumCredentialFileBytes ∧
        createFromSource (contents file) verifier = .ok credential := by
  constructor
  · intro h
    rw [loadCredential] at h
    split at h
    · cases h
    · rename_i source hsource
      have hregular := readCredentialSource_regular hsource
      simp only [readCredentialSource,hregular] at hsource
      split at hsource
      · cases hsource
      · rename_i hsize
        cases hsource
        exact ⟨hregular,by omega,h⟩
  · rintro ⟨hregular,hsize,hcredential⟩
    have hsource : readCredentialSource tree contents file = .ok (contents file) := by
      simp only [readCredentialSource,hregular]
      rw [if_neg (by omega)]
    rw [loadCredential,hsource]
    exact hcredential

theorem unshared_iff (hroots : ∀ root ∈ roots, Canonical tree.kind root.names)
    (hfile : resolveCredentialPath tree path = .ok file) :
    credentialIsShared tree file roots = .ok false ↔
      ∀ root ∈ roots, ¬root.path.elements <+: file.parentPath.elements := by
  obtain ⟨D,-,hD,-,-,hparent⟩ := resolveCredentialPath_spec hfile
  rw [credentialIsShared_eq hroots hD hparent,hparent,Path.absolute_elements hD.proper]
  simp [SharedRoot.elements_eq]

theorem createFileAuthenticationService_iff
    (hroots : ∀ root ∈ roots, Canonical host.tree.kind root.names ∧ host.tree.kind root.names = some .directory) :
    createFileAuthenticationService host.tree host.contents path roots host.verifier = .ok service ↔
      ∃ verifier file, Credential host path (· ∈ roots) verifier file service := by
  have hcanonical : ∀ root ∈ roots, Canonical host.tree.kind root.names := fun root hroot => (hroots root hroot).1
  constructor
  · intro h
    obtain ⟨file,hfile,hshared,-⟩ := createFileAuthenticationService_eq_ok h
    unfold createFileAuthenticationService at h
    split at h
    · cases h
    · rename_i verifier hverifier
      simp only [hfile,hshared] at h
      split at h
      · cases h
      · rename_i credential hload
        split at h
        · cases h
        · rename_i dummyVerifier hdummy
          cases h
          obtain ⟨hregular,hsize,hcredential⟩ := loadCredential_iff.mp hload
          exact ⟨verifier,file,hverifier,hfile,(unshared_iff hcanonical hfile).mp hshared,hregular,hsize,hcredential,
            hdummy⟩
  · rintro ⟨verifier,file,h⟩
    have hshared := (unshared_iff hcanonical h.resolves).mpr h.outside
    have hload := loadCredential_iff.mpr ⟨h.regular,h.size,h.credential⟩
    rw [h.verifies]
    simp only [createFileAuthenticationService,h.resolves,hshared,hload,h.dummyVerifier]

theorem Credential.unreachable {verifier : PasswordVerifier}
    (h : Credential host path (· ∈ roots) verifier file service)
    (hroots : ∀ root ∈ roots, Canonical host.tree.kind root.names ∧ host.tree.kind root.names = some .directory) :
    Unreachable host.tree roots file := by
  obtain ⟨D,-,hD,hrooted,hdirs,hparent⟩ := resolveCredentialPath_spec h.resolves
  obtain ⟨heq,hnames,hkind⟩ := canonical_of_regular hrooted hdirs hD h.regular
  have hcanonical : ∀ root ∈ roots, Canonical host.tree.kind root.names := fun root hroot => (hroots root hroot).1
  have hshared := (unshared_iff hcanonical h.resolves).mpr h.outside
  rw [credentialIsShared_eq hcanonical hD hparent] at hshared
  rw [heq]
  exact unreachable_of_unshared (fun root hroot => (hroots root hroot).2) hnames.proper hkind (by simpa using hshared)

/-- A location of the plan is the written one: its root is where the written path leads, and it permits what is
written. -/
structure LocationWritten (host : Host) (sourcePath : Bytes) (location : ParsedLocationBlock) (made : LocationConfig) :
    Prop where
  apiPath : made.apiPath = location.apiPath
  root : ∃ text, Sets location.given .path (.string text) ∧ Leads host.tree (writtenPath sourcePath text) made.root
  allowRead : Effective location.given .readPermission .boolean true made.permissions.allowRead
  allowWrite : Effective location.given .writePermission .boolean false made.permissions.allowWrite
  allowDelete : Effective location.given .deletePermission .boolean false made.permissions.allowDelete

section Server
variable {server : ParsedServerBlock} {made : List LocationConfig}

theorem LocationRuns.written {location : ParsedLocationBlock} {configured : LocationSettings} {made : LocationConfig}
    (h : LocationReflects location configured) (hruns : LocationRuns host sourcePath configured made) :
    LocationWritten host sourcePath location made where
  apiPath := hruns.apiPath.trans h.apiPath
  root := ⟨_,⟨_,h.root,rfl⟩,hruns.leads⟩
  allowRead := hruns.permissions ▸ h.allowRead
  allowWrite := hruns.permissions ▸ h.allowWrite
  allowDelete := hruns.permissions ▸ h.allowDelete

theorem locations_written {parsed : List ParsedLocationBlock} {configured : List LocationSettings}
    (h : List.Forall₂ LocationReflects parsed configured)
    (hruns : List.Forall₂ (LocationRuns host sourcePath) configured made) :
    List.Forall₂ (LocationWritten host sourcePath) parsed made := by
  induction h generalizing made with
  | nil =>
    cases hruns
    exact .nil
  | cons hlocation _ ih =>
    cases hruns with
    | cons hmade hrest => exact .cons (hmade.written hlocation) (ih hrest)

theorem Leads.unique {other : SharedRoot} (h : Leads tree path root) (hother : Leads tree path other) : root = other :=
  eq_of_path (Except.ok.inj (h.1.symm.trans hother.1))

/-- The roots of the plan are the directories that the text names. -/
theorem isRoot_iff (hvalid : ∀ location ∈ server.locations, Configuration.ValidLocation location)
    (h : List.Forall₂ (LocationWritten host sourcePath) server.locations made) :
    IsRoot host sourcePath server root ↔ root ∈ made.map LocationConfig.root := by
  rw [List.mem_map]
  constructor
  · rintro ⟨location,hmem,text,hsets,hleads⟩
    obtain ⟨location',hmem',hwritten⟩ := exists_related h.flip location hmem
    obtain ⟨text',hsets',hleads'⟩ := hwritten.root
    obtain rfl : text = text' := by
      simpa using Configuration.sets_unique (hvalid location hmem).single hsets hsets'
    exact ⟨location',hmem',hleads'.unique hleads⟩
  · rintro ⟨location',hmem',rfl⟩
    obtain ⟨location,hmem,hwritten⟩ := exists_related h location' hmem'
    exact ⟨location,hmem,hwritten.root⟩

theorem made_roots (h : List.Forall₂ (LocationWritten host sourcePath) server.locations made) :
    ∀ root ∈ made.map LocationConfig.root,
      Canonical host.tree.kind root.names ∧ host.tree.kind root.names = some .directory := by
  intro root hroot
  obtain ⟨location',hmem,rfl⟩ := List.mem_map.mp hroot
  obtain ⟨location,-,hwritten⟩ := exists_related h location' hmem
  obtain ⟨text,-,hleads⟩ := hwritten.root
  exact SharedRoot.create_spec (create_iff.mpr hleads)

/-- The service is made when the credential lies outside the directories that the text names. -/
theorem credential_iff (hvalid : ∀ location ∈ server.locations, Configuration.ValidLocation location)
    (h : List.Forall₂ (LocationWritten host sourcePath) server.locations made) :
    createFileAuthenticationService host.tree host.contents path (made.map LocationConfig.root) host.verifier =
        .ok service ↔
      ∃ verifier file, Credential host path (IsRoot host sourcePath server) verifier file service := by
  have hroots : IsRoot host sourcePath server = (· ∈ made.map LocationConfig.root) := by
    funext root
    exact propext (isRoot_iff hvalid h)
  rw [hroots]
  exact createFileAuthenticationService_iff (made_roots h)

theorem resolveCredentials_eq (settings : ServerSettings) (sourcePath : Bytes) :
    resolveCredentials settings sourcePath =
      (writtenPath sourcePath settings.credentials.value,settings.credentials.location) := by
  rw [resolveCredentials,ServerSettings.credentials]
  cases settings.credentialsFile <;> rfl

theorem effective_credentials (h : Reflects server settings) :
    Effective server.given .credentialsFile .string (ascii "credentials.conf") settings.credentials.value := by
  rcases h.credentials with hmem | ⟨hdefault,hnone⟩
  · exact Or.inl ⟨_,hmem,rfl⟩
  · exact Or.inr ⟨by rw [hdefault],hnone⟩

theorem buildSessions_ok : (∃ sessions, buildSessions host = .ok sessions) ↔ host.sessionCodec = true := by
  rw [buildSessions]
  cases hcodec : host.sessionCodec with
  | false => simp
  | true =>
    have hvalid : ({} : Session.SessionStorePolicy).Valid := by decide
    have hcreate : SessionStore.create {} = .ok _ := dif_pos hvalid
    refine ⟨fun _ => rfl,fun _ => ⟨⟨{},hvalid,[],Session.wellFormed_nil {},0,0,0⟩,?_⟩⟩
    rw [if_neg (by decide),hcreate]

theorem build_iff {parsed : ParsedConfiguration} {plan : RuntimePlan} :
    build host ⟨sourcePath,⟨parsed,⟨[settings]⟩⟩⟩ = .ok plan ↔
      ∃ made mimeTypes, buildLocations host sourcePath settings.locations = .ok made ∧
        loadMimeTypes host settings sourcePath = .ok mimeTypes ∧
        createFileAuthenticationService host.tree host.contents (writtenPath sourcePath settings.credentials.value)
          (made.map LocationConfig.root) host.verifier = .ok plan.authentication ∧
        buildSessions host = .ok plan.sessions ∧ plan.processLogSeverity = mapLogLevel settings.logLevel ∧
        plan.servers = [serverConfig settings made mimeTypes (writtenPath sourcePath settings.credentials.value)] := by
  unfold build
  simp only [buildServers]
  cases hmade : buildLocations host sourcePath settings.locations with
  | error failure => simp
  | ok made =>
    cases hmime : loadMimeTypes host settings sourcePath with
    | error failure => simp
    | ok mimeTypes =>
      simp only [List.nil_append,resolveCredentials_eq,Option.getD_none,Option.getD_some]
      cases hservice : createFileAuthenticationService host.tree host.contents
          (writtenPath sourcePath settings.credentials.value) (made.map LocationConfig.root) host.verifier with
      | error code => simp [hservice]
      | ok authentication =>
        cases hsessions : buildSessions host with
        | error code => simp
        | ok sessions =>
          obtain ⟨servers,authentication',sessions',severity⟩ := plan
          simp only [Except.ok.injEq,RuntimePlan.mk.injEq]
          constructor
          · rintro ⟨rfl,rfl,rfl,rfl⟩
            exact ⟨made,mimeTypes,rfl,rfl,hservice,rfl,rfl,rfl⟩
          · rintro ⟨_,_,rfl,rfl,hservice',rfl,rfl,rfl⟩
            exact ⟨rfl,Except.ok.inj (hservice.symm.trans hservice'),rfl,rfl⟩

/-- The host provides for a configuration when the plan of its settings can be made. -/
theorem provided_iff {configuration parsed : ParsedConfiguration} (hvalid : ValidConfiguration configuration)
    (h : Reflects configuration.server settings) :
    (∃ plan, build host ⟨sourcePath,⟨parsed,⟨[settings]⟩⟩⟩ = .ok plan) ↔
      Provided host sourcePath configuration.server := by
  constructor
  · rintro ⟨plan,hplan⟩
    obtain ⟨made,mimeTypes,hmade,hmime,hservice,hsessions,-,-⟩ := build_iff.mp hplan
    have hwritten := locations_written h.locations (buildLocations_iff.mp hmade)
    obtain ⟨verifier,file,hcredential⟩ := (credential_iff hvalid.locations hwritten).mp hservice
    obtain ⟨source,hsource,hparse⟩ := (loadMimeTypes_iff h).mp hmime
    refine ⟨?_,⟨source,hsource,(parse_ok hparse).1⟩,
      ⟨_,verifier,file,_,effective_credentials h,hcredential⟩,buildSessions_ok.mp ⟨_,hsessions⟩⟩
    intro location hmem
    obtain ⟨made',-,hwritten'⟩ := exists_related hwritten.flip location hmem
    obtain ⟨text,hsets,hleads⟩ := hwritten'.root
    exact ⟨text,made'.root,hsets,hleads⟩
  · intro hprovided
    obtain ⟨made,hruns⟩ : ∃ made, List.Forall₂ (LocationRuns host sourcePath) settings.locations made := by
      apply exists_forall₂
      intro configured hmem
      obtain ⟨location,hlocation,hreflects⟩ := exists_related h.locations configured hmem
      obtain ⟨text,root,hsets,hleads⟩ := hprovided.roots location hlocation
      obtain rfl : text = configured.root.value := by
        simpa using Configuration.sets_unique (hvalid.locations location hlocation).single hsets ⟨_,hreflects.root,rfl⟩
      exact ⟨⟨configured.apiPath,root,⟨configured.allowRead,configured.allowWrite,configured.allowDelete⟩⟩,
        rfl,hleads,rfl⟩
    have hwritten := locations_written h.locations hruns
    obtain ⟨source,hsource,hformed⟩ := hprovided.media
    obtain ⟨mimeTypes,hparse⟩ := exists_parse hformed
    obtain ⟨text,verifier,file,service,htext,hcredential⟩ := hprovided.credential
    obtain rfl : text = settings.credentials.value :=
      htext.unique hvalid.server.single (fun _ _ h => by simpa using h) (effective_credentials h)
    have hservice := (credential_iff hvalid.locations hwritten).mpr ⟨verifier,file,hcredential⟩
    obtain ⟨sessions,hsessions⟩ := buildSessions_ok.mpr hprovided.sessions
    exact ⟨⟨_,service,sessions,_⟩,build_iff.mpr ⟨made,mimeTypes,buildLocations_iff.mpr hruns,
      (loadMimeTypes_iff h).mpr ⟨source,hsource,hparse⟩,hservice,hsessions,rfl,rfl⟩⟩

end Server

/-- What the host provides does not depend on the order of the text. -/
theorem Provided.reordered {a b : ParsedConfiguration} (h : Reordered a b)
    (ha : Provided host sourcePath a.server) : Provided host sourcePath b.server := by
  have hserver := Configuration.sets_perm h.directives
  obtain ⟨between,hperm,hbetween⟩ := h.locations
  have hsource : MediaSource host sourcePath b.server = MediaSource host sourcePath a.server := by
    funext source
    simp only [MediaSource,hserver]
  have hroot {root : SharedRoot} (hroot : IsRoot host sourcePath b.server root) :
      IsRoot host sourcePath a.server root := by
    obtain ⟨location,hmem,text,hsets,hleads⟩ := hroot
    obtain ⟨other,hother,hlocation⟩ := exists_related hbetween location hmem
    exact ⟨other,hperm.mem_iff.mpr hother,text,Configuration.sets_perm hlocation.directives ▸ hsets,hleads⟩
  obtain ⟨text,verifier,file,service,htext,hcredential⟩ := ha.credential
  refine ⟨?_,hsource ▸ ha.media,⟨text,verifier,file,service,?_,
    { hcredential with outside := fun root h => hcredential.outside root (hroot h) }⟩,ha.sessions⟩
  · intro location hmem
    obtain ⟨other,hother,hlocation⟩ := exists_related hbetween location hmem
    rw [← Configuration.sets_perm hlocation.directives]
    exact ha.roots other (hperm.mem_iff.mpr hother)
  · rw [Effective,← hserver]
    exact htext

end SpareNode.Bootstrap
