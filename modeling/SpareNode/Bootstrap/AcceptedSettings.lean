import SpareNode.Bootstrap.HostProvision
import SpareNode.Http.Transport.HttpConnectionAdmission
import SpareNode.Network.AdmissionReplay
import SpareNode.Network.ConnectionDispatcher

/-! # What the parts accept

The validator bounds the settings so that no part of the server refuses what it is given: the handler its budgets, the
dispatcher its limits and admission, the transport policy its addresses and the router the locations.
-/
namespace SpareNode.Bootstrap
open LexicalPath FileTree Http Network Filesystem Authentication
open SpareNode.Configuration (ServerSettings ParsedServerBlock ParsedLocationBlock ParsedConfiguration Sets Effective
  Reflects ValidConfiguration ValidServer)

variable {host : Host} {path : Path} {sourcePath : Bytes} {settings : ServerSettings}

def pendingConnectionLimit : ℕ := 128

/-- The parts of a server take what they are given: the handler its budgets, the dispatcher its limits and the options
of its admission, the transport policy its addresses and the router the locations. -/
structure Accepts (server : ServerConfig) : Prop where
  deadlines : ∀ started, 0 ≤ started → started + milliseconds maximumConfigTimeout ≤ clockMax →
    (RequestDeadlines.create server.handlerConfig.timeouts started).isSome = true
  response : 0 < server.handlerConfig.responseTimeout ∧ server.handlerConfig.responseTimeout ≤ maximumConfigTimeout
  workers : 1 ≤ server.effectiveWorkerCount.toNat ∧ server.effectiveWorkerCount.toNat ≤ 64
  dispatcher : ∃ limits : DispatcherLimits, limits.workerCount = server.effectiveWorkerCount.toNat ∧
    limits.pendingConnectionLimit = pendingConnectionLimit ∧
    limits.admission = some (makeHttpConnectionAdmission server.handlerConfig)
  admission : ∃ policy : AdmissionPolicy, policy.options = makeHttpConnectionAdmission server.handlerConfig
  loopback : server.transportPolicy.mode = .loopbackHttp →
    ∃ address, Ip.Denotes server.endpoint.address address ∧ address.Loopback
  proxy : server.transportPolicy.mode = .trustedProxyHttps →
    ∃ text address, server.transportPolicy.trustedProxy = some text ∧ Ip.Denotes text address
  routes : ∀ (σ : Type) (decorator : Option (Api.ProtectedRouteDecorator σ)) (handlers : AuthenticationHandlers σ)
    (locations : List (Api.FilesystemApiLocation σ)),
    locations.map (·.apiPath) = server.locations.map LocationConfig.apiPath →
    ((∃ builder, registerServerRoutes { protectedRouteDecorator := decorator } (some handlers) locations =
        some builder) ↔
      8 * server.locations.length + 2 ≤ HttpRouter.maximumRouteCount ∧
        ∀ location ∈ server.locations, location.apiPath ≠ loginPath ∧ location.apiPath ≠ logoutPath) ∧
    ∀ builder, registerServerRoutes { protectedRouteDecorator := decorator } (some handlers) locations =
      some builder → Application.ServesLocations builder.build decorator handlers locations

section Accepted
variable {server : ParsedServerBlock} {made : List LocationConfig} {mimeTypes : MimeTypeRegistry}

/-- The longest timeout of a configuration is that of the handler. -/
theorem timeout_accepted (hvalid : ValidServer server.given) {kind : Configuration.ServerDirectiveKind}
    (hkind : kind.Timeout) {default value : UInt64} (hdefault : 1 ≤ default.toNat ∧ default.toNat ≤ 86400000)
    (h : Effective server.given kind .integer default value) :
    0 < chronoMilliseconds value ∧ chronoMilliseconds value ≤ maximumConfigTimeout := by
  have hbounds : 1 ≤ value.toNat ∧ value.toNat ≤ 86400000 := by
    rcases h with hsets | ⟨rfl,-⟩
    · exact hvalid.timeouts kind hkind value hsets
    · exact hdefault
  have hsigned : chronoMilliseconds value = value.toNat :=
    BitVec.toInt_eq_toNat_of_lt (by rw [UInt64.toNat_toBitVec]; omega)
  rw [hsigned,maximumConfigTimeout]
  omega

theorem checkedDeadline_accepted {started timeout : ℤ} (hstarted : 0 ≤ started)
    (hroom : started + milliseconds maximumConfigTimeout ≤ clockMax)
    (htimeout : 0 < timeout ∧ timeout ≤ maximumConfigTimeout) :
    (checkedDeadline started timeout).isSome = true := by
  rw [Option.isSome_iff_ne_none]
  intro hnone
  have hlate := checkedDeadline_none hnone hstarted htimeout.1
  unfold milliseconds at hroom hlate
  omega

theorem create_accepted {timeouts : HttpRequestTimeouts} {started : ℤ} (hstarted : 0 ≤ started)
    (hroom : started + milliseconds maximumConfigTimeout ≤ clockMax)
    (h : ∀ timeout ∈ [timeouts.headers,timeouts.body,timeouts.total], 0 < timeout ∧ timeout ≤ maximumConfigTimeout) :
    (RequestDeadlines.create timeouts started).isSome = true := by
  have hchecked {timeout : ℤ} (hmem : timeout ∈ [timeouts.headers,timeouts.body,timeouts.total]) :=
    checkedDeadline_accepted hstarted hroom (h timeout hmem)
  obtain ⟨total,htotal⟩ := Option.isSome_iff_exists.mp (@hchecked timeouts.total (by simp))
  obtain ⟨headers,hheaders⟩ := Option.isSome_iff_exists.mp (@hchecked timeouts.headers (by simp))
  obtain ⟨body,hbody⟩ := Option.isSome_iff_exists.mp (@hchecked timeouts.body (by simp))
  simp [RequestDeadlines.create,htotal,hheaders,hbody]

theorem workers_accepted (hvalid : ValidServer server.given) (h : Reflects server settings) :
    1 ≤ (if settings.multithreadingEnabled then settings.workerThreads else 1).toNat ∧
      (if settings.multithreadingEnabled then settings.workerThreads else 1).toNat ≤ 64 := by
  cases henabled : settings.multithreadingEnabled with
  | false =>
    rw [if_neg (by decide)]
    decide
  | true =>
    rw [if_pos rfl]
    have hsets : Sets server.given .multithreading (.boolean true) := by
      rcases h.multithreading with hsets | ⟨hdefault,-⟩
      · exact henabled ▸ hsets
      · rw [henabled] at hdefault
        cases hdefault
    obtain ⟨count,hcount⟩ := hvalid.workerThreads.mpr hsets
    rcases h.workerThreads with hthreads | ⟨-,hnone⟩
    · have hrange := hvalid.workerRange _ hthreads
      omega
    · exact absurd hcount (hnone _)

theorem written_paths {parsed : List ParsedLocationBlock}
    (h : List.Forall₂ (LocationWritten host sourcePath) parsed made) :
    made.map LocationConfig.apiPath = parsed.map (·.apiPath) := by
  induction h with
  | nil => rfl
  | cons hmade _ ih => rw [List.map_cons,List.map_cons,hmade.apiPath,ih]

theorem routes_accepted {configuration : ParsedConfiguration} (hvalid : ValidConfiguration configuration)
    (h : List.Forall₂ (LocationWritten host sourcePath) configuration.server.locations made) {σ : Type}
    (decorator : Option (Api.ProtectedRouteDecorator σ)) (handlers : AuthenticationHandlers σ)
    {locations : List (Api.FilesystemApiLocation σ)}
    (hlocations : locations.map (·.apiPath) = made.map LocationConfig.apiPath) :
    ((∃ builder, registerServerRoutes { protectedRouteDecorator := decorator } (some handlers) locations =
        some builder) ↔
      8 * made.length + 2 ≤ HttpRouter.maximumRouteCount ∧
        ∀ location ∈ made, location.apiPath ≠ loginPath ∧ location.apiPath ≠ logoutPath) ∧
    ∀ builder, registerServerRoutes { protectedRouteDecorator := decorator } (some handlers) locations =
      some builder → Application.ServesLocations builder.build decorator handlers locations := by
  have hparsed := written_paths h
  have hdisjoint : Configuration.Disjoint (made.map LocationConfig.apiPath) := hparsed ▸ hvalid.disjoint
  have hpaths : ∀ path ∈ made.map LocationConfig.apiPath, Configuration.LocationPath path := by
    rw [hparsed,List.forall_mem_map]
    exact fun location hmem => (hvalid.locations location hmem).path
  have hne : made.map LocationConfig.apiPath ≠ [] := by
    rw [hparsed]
    simpa using hvalid.nonempty
  have hregister := Application.paths_register hne hpaths hdisjoint hlocations decorator handlers
  rwa [List.length_map,List.forall_mem_map,Option.isSome_iff_exists] at hregister

theorem serverConfig_accepts {configuration : ParsedConfiguration} (hvalid : ValidConfiguration configuration)
    (h : Reflects configuration.server settings)
    (hmade : List.Forall₂ (LocationWritten host sourcePath) configuration.server.locations made) :
    Accepts (serverConfig settings made mimeTypes path) where
  deadlines := by
    intro started hstarted hroom
    apply create_accepted hstarted hroom
    simp only [List.forall_mem_cons,List.not_mem_nil,false_implies,implies_true,and_true]
    refine ⟨timeout_accepted hvalid.server ?_ (by decide) h.headerTimeout,
      timeout_accepted hvalid.server ?_ (by decide) h.bodyTimeout,
      timeout_accepted hvalid.server ?_ (by decide) h.requestTimeout⟩
    · exact Or.inl rfl
    · exact Or.inr (Or.inl rfl)
    · exact Or.inr (Or.inr (Or.inl rfl))
  response := timeout_accepted hvalid.server (Or.inr (Or.inr (Or.inr rfl))) (by decide) h.responseTimeout
  workers := workers_accepted hvalid.server h
  dispatcher := ⟨⟨_,pendingConnectionLimit,some _,(workers_accepted hvalid.server h).1,by decide⟩,rfl,rfl,rfl⟩
  admission := by
    have hmarker : ascii "\r\n\r\n" ≠ [] := by decide
    have hfits : (ascii "\r\n\r\n").length ≤ maximumHttpRequestHeadBytes {} := by decide
    exact ⟨⟨_,hmarker,hfits,(timeout_accepted hvalid.server (Or.inl rfl) (by decide) h.headerTimeout).1,
      (timeout_accepted hvalid.server (Or.inr (Or.inr (Or.inl rfl))) (by decide) h.requestTimeout).1⟩,rfl⟩
  loopback := by
    intro hmode
    have hmapped : settings.transportMode = .loopbackHttp := by
      cases hsettings : settings.transportMode <;> simp [serverConfig,mapTransportMode,hsettings] at hmode ⊢
    exact hvalid.server.loopback (hmapped ▸ h.transportMode) _ h.bindAddress
  proxy := by
    intro hmode
    have hmapped : settings.transportMode = .trustedProxyHttps := by
      cases hsettings : settings.transportMode <;> simp [serverConfig,mapTransportMode,hsettings] at hmode ⊢
    obtain ⟨text,hsets⟩ := hvalid.server.proxy.mpr (hmapped ▸ h.transportMode)
    obtain ⟨address,haddress⟩ := hvalid.server.trustedProxy text hsets
    exact ⟨text,address,(h.trustedProxy text).mpr hsets,haddress⟩
  routes := fun _ decorator handlers _ => routes_accepted hvalid hmade decorator handlers

end Accepted

end SpareNode.Bootstrap
