import SpareNode.Configuration.ValidConfiguration
import SpareNode.Library.KeyedWalk

/-! # What the validator accepts

Every rule of the walk either leaves the errors as they are or adds to them. A state without errors has
recorded each directive, so that the relations read what the block sets.
-/
namespace SpareNode.Configuration
open KeyedWalk

theorem parseConfiguredLogLevel_iff {text : Bytes} {level : ConfiguredLogLevel} :
    parseConfiguredLogLevel text = some level ↔ text = level.text := by
  constructor
  · intro h
    unfold parseConfiguredLogLevel at h
    split_ifs at h with hdebug hinfo hwarning herror
    all_goals
      obtain rfl := Option.some.inj h
      assumption
  · rintro rfl
    cases level <;> decide

theorem parseConfiguredTransportMode_iff {text : Bytes} {mode : ConfiguredTransportMode} :
    parseConfiguredTransportMode text = some mode ↔ text = mode.text := by
  constructor
  · intro h
    unfold parseConfiguredTransportMode at h
    split_ifs at h with hloopback hlan hproxy
    all_goals
      obtain rfl := Option.some.inj h
      assumption
  · rintro rfl
    cases mode <;> decide

theorem ConfiguredLogLevel.text_injective : Function.Injective ConfiguredLogLevel.text := by
  intro a b h
  exact Option.some.inj ((parseConfiguredLogLevel_iff.mpr rfl).symm.trans (parseConfiguredLogLevel_iff.mpr h))

theorem ConfiguredTransportMode.text_injective : Function.Injective ConfiguredTransportMode.text := by
  intro a b h
  exact Option.some.inj ((parseConfiguredTransportMode_iff.mpr rfl).symm.trans (parseConfiguredTransportMode_iff.mpr h))

theorem numeric_iff {text : Bytes} : (Ip.parseNumericAddress text).isSome = true ↔ ∃ address, Ip.Denotes text address := by
  rw [Option.isSome_iff_exists]
  constructor
  · rintro ⟨result,h⟩
    obtain ⟨address,hdenotes,-⟩ := Ip.parseNumericAddress_denotes.mp h
    exact ⟨address,hdenotes⟩
  · rintro ⟨address,h⟩
    exact ⟨_,Ip.parseNumericAddress_denotes.mpr ⟨address,h,rfl⟩⟩

theorem isLoopbackIpAddress_iff {text : Bytes} :
    isLoopbackIpAddress text = true ↔ ∃ address, Ip.Denotes text address ∧ address.Loopback := by
  unfold isLoopbackIpAddress
  constructor
  · intro h
    split at h
    · rename_i parsed hparsed
      obtain ⟨address,hdenotes,rfl⟩ := Ip.parseNumericAddress_denotes.mp hparsed
      exact ⟨address,hdenotes,(Ip.isLoopbackAddress_iff address).mp h⟩
    · cases h
  · rintro ⟨address,hdenotes,h⟩
    rw [Ip.parseNumericAddress_denotes.mpr ⟨address,hdenotes,rfl⟩]
    exact (Ip.isLoopbackAddress_iff address).mpr h

theorem isUnspecifiedIpAddress_iff {text : Bytes} :
    isUnspecifiedIpAddress text = true ↔ ∃ address, Ip.Denotes text address ∧ address.Wildcard := by
  unfold isUnspecifiedIpAddress
  constructor
  · intro h
    split at h
    · rename_i parsed hparsed
      obtain ⟨address,hdenotes,rfl⟩ := Ip.parseNumericAddress_denotes.mp hparsed
      exact ⟨address,hdenotes,(Ip.isUnspecifiedAddress_iff address).mp h⟩
    · cases h
  · rintro ⟨address,hdenotes,h⟩
    rw [Ip.parseNumericAddress_denotes.mpr ⟨address,hdenotes,rfl⟩]
    exact (Ip.isUnspecifiedAddress_iff address).mpr h

section
variable {κ α : Type*} {given : List (κ × ParsedConfigValue)} {kind : κ}

theorem sets_unique (h : (given.map (·.1)).Nodup) {a b : ParsedConfigScalar} (ha : Sets given kind a)
    (hb : Sets given kind b) : a = b := by
  obtain ⟨value,hmem,rfl⟩ := ha
  obtain ⟨value',hmem',rfl⟩ := hb
  rw [(Prod.mk.inj (List.inj_on_of_nodup_map h hmem hmem' rfl)).2]

theorem Effective.unique {make : α → ParsedConfigScalar} {default a b : α} (h : (given.map (·.1)).Nodup)
    (hmake : Function.Injective make) (ha : Effective given kind make default a)
    (hb : Effective given kind make default b) : a = b := by
  rcases ha with ha | ⟨rfl,ha⟩
  · rcases hb with hb | ⟨-,hb⟩
    · exact hmake (sets_unique h ha hb)
    · exact absurd ha (hb _)
  · rcases hb with hb | ⟨rfl,-⟩
    · exact absurd hb (ha _)
    · rfl
end

theorem ParsedConfigScalar.eq_string {scalar : ParsedConfigScalar} (h : scalar.expectation = .stringLiteral) :
    scalar = .string scalar.text := by
  cases scalar <;> first | rfl | cases h

theorem ParsedConfigScalar.eq_integer {scalar : ParsedConfigScalar} (h : scalar.expectation = .integerLiteral) :
    scalar = .integer scalar.number := by
  cases scalar <;> first | rfl | cases h

theorem ParsedConfigScalar.eq_boolean {scalar : ParsedConfigScalar} (h : scalar.expectation = .booleanLiteral) :
    scalar = .boolean scalar.flag := by
  cases scalar <;> first | rfl | cases h

/-- The value of a directive is of the type that its kind asks for. -/
theorem ParsedServerDirective.scalar_eq (directive : ParsedServerDirective) :
    directive.value.scalar = match directive.kind.expectation with
      | .stringLiteral => .string directive.value.scalar.text
      | .integerLiteral => .integer directive.value.scalar.number
      | _ => .boolean directive.value.scalar.flag := by
  have htyped := directive.typed
  cases hkind : directive.kind <;> rw [hkind] at htyped
  all_goals first
    | exact ParsedConfigScalar.eq_string htyped
    | exact ParsedConfigScalar.eq_integer htyped
    | exact ParsedConfigScalar.eq_boolean htyped

theorem ParsedServerBlock.mem_given {server : ParsedServerBlock} {kind : ServerDirectiveKind} {value : ParsedConfigValue} :
    (kind,value) ∈ server.given ↔ ∃ directive ∈ server.directives, directive.kind = kind ∧ directive.value = value := by
  simp only [ParsedServerBlock.given,List.mem_map,Prod.mk.injEq]

theorem ParsedServerBlock.sets_iff {server : ParsedServerBlock} {kind : ServerDirectiveKind} {scalar : ParsedConfigScalar} :
    Sets server.given kind scalar ↔
      ∃ directive ∈ server.directives, directive.kind = kind ∧ directive.value.scalar = scalar := by
  simp only [Sets,mem_given]
  constructor
  · rintro ⟨value,⟨directive,hmem,hkind,rfl⟩,hscalar⟩
    exact ⟨directive,hmem,hkind,hscalar⟩
  · rintro ⟨directive,hmem,hkind,hscalar⟩
    exact ⟨_,⟨directive,hmem,hkind,rfl⟩,hscalar⟩

theorem ParsedServerBlock.single_iff {server : ParsedServerBlock} :
    (server.given.map (·.1)).Nodup ↔ (server.directives.map (·.kind)).Nodup := by
  rw [ParsedServerBlock.given,List.map_map]
  rfl

/-- A kind of which no directive stands in the block. -/
theorem ParsedServerBlock.not_sets {server : ParsedServerBlock} {kind : ServerDirectiveKind}
    (h : ∀ directive ∈ server.directives, directive.kind ≠ kind) : ∀ scalar, ¬Sets server.given kind scalar := by
  intro scalar hsets
  obtain ⟨directive,hmem,hkind,-⟩ := sets_iff.mp hsets
  exact h directive hmem hkind

namespace ValidationState

def Passes (directive : ParsedServerDirective) : Prop :=
  match directive.kind with
  | .bind | .trustedProxy => (Ip.parseNumericAddress directive.value.scalar.text).isSome = true
  | .port => minimumPort ≤ directive.value.scalar.number.toNat ∧ directive.value.scalar.number.toNat ≤ maximumPort
  | .logLevel => (parseConfiguredLogLevel directive.value.scalar.text).isSome = true
  | .transportMode => (parseConfiguredTransportMode directive.value.scalar.text).isSome = true
  | .mimeTypesFile | .credentialsFile => directive.value.scalar.text ≠ []
  | .headerTimeoutMs | .bodyTimeoutMs | .requestTimeoutMs | .responseTimeoutMs =>
    1 ≤ directive.value.scalar.number.toNat ∧ directive.value.scalar.number.toNat ≤ maximumTimeoutMs
  | .multithreading | .workerThreads => True

def record (s : ValidationState) (directive : ParsedServerDirective) : ValidationState :=
  let value := directive.value
  match directive.kind with
  | .bind =>
    { s with
      bindAddress := value.scalar.text
      bindDirective := some directive
      server := { s.server with bindAddress := value.scalar.text } }
  | .port => { s with server := { s.server with port := value.scalar.number.toUInt16 } }
  | .multithreading =>
    { s with
      multithreadingEnabled := value.scalar.flag
      server := { s.server with multithreadingEnabled := value.scalar.flag } }
  | .workerThreads =>
    { s with
      workerThreads := value.scalar.number
      workerThreadsDirective := some directive
      server := { s.server with workerThreads := value.scalar.number } }
  | .logLevel =>
    { s with server := { s.server with logLevel := (parseConfiguredLogLevel value.scalar.text).getD .info } }
  | .mimeTypesFile => { s with server := { s.server with mimeTypesFile := some ⟨value.scalar.text,value.location⟩ } }
  | .credentialsFile =>
    { s with server := { s.server with credentialsFile := some ⟨value.scalar.text,value.location⟩ } }
  | .headerTimeoutMs => { s with server := { s.server with headerTimeoutMs := value.scalar.number } }
  | .bodyTimeoutMs => { s with server := { s.server with bodyTimeoutMs := value.scalar.number } }
  | .requestTimeoutMs => { s with server := { s.server with requestTimeoutMs := value.scalar.number } }
  | .responseTimeoutMs => { s with server := { s.server with responseTimeoutMs := value.scalar.number } }
  | .transportMode =>
    { s with
      server := { s.server with
        transportMode := (parseConfiguredTransportMode value.scalar.text).getD .loopbackHttp } }
  | .trustedProxy =>
    { s with
      trustedProxyDirective := some directive
      server := { s.server with trustedProxy := some value.scalar.text } }

def Clean (s : ValidationState) : Prop := s.errors = []

variable {s : ValidationState} {directive : ParsedServerDirective}

theorem not_clean_addError (e : ConfigValidationError) : ¬(s.addError e).Clean := by
  simp [Clean,addError]

theorem not_clean_addServerError (code : ConfigValidationErrorCode) (location : SourceLocation) :
    ¬(s.addServerError code directive location).Clean := not_clean_addError _

theorem check_clean {passes : Bool} {code : ConfigValidationErrorCode} :
    (s.check passes code directive).Clean ↔ s.Clean ∧ passes = true := by
  cases passes with
  | true => exact (and_iff_left rfl).symm
  | false => exact ⟨fun h => absurd h (not_clean_addServerError _ _),fun h => absurd h.2 (by decide)⟩

theorem check_passes {passes : Bool} {code : ConfigValidationErrorCode} (h : passes = true) :
    s.check passes code directive = s := if_pos h

/-- Each rule for one directive adds an error unless the directive passes. -/
theorem validateServerDirective_clean : (s.validateServerDirective directive).Clean ↔ s.Clean ∧ Passes directive := by
  cases hkind : directive.kind <;> simp only [validateServerDirective,Passes,hkind]
  case bind => exact check_clean
  case trustedProxy => exact check_clean
  case multithreading => exact (and_iff_left trivial).symm
  case workerThreads => exact (and_iff_left trivial).symm
  case port =>
    refine (check_clean (s := s)).trans (and_congr_right' ?_)
    simp
  case mimeTypesFile =>
    refine (check_clean (s := s)).trans (and_congr_right' ?_)
    simp
  case credentialsFile =>
    refine (check_clean (s := s)).trans (and_congr_right' ?_)
    simp
  case logLevel =>
    unfold validateLogLevel
    split
    · rename_i h
      rw [h]
      exact ⟨fun h => absurd h (not_clean_addServerError _ _),fun h => absurd h.2 (by decide)⟩
    · rename_i level h
      rw [h]
      exact (and_iff_left rfl).symm
  case transportMode =>
    unfold validateTransportMode
    split
    · rename_i h
      rw [h]
      exact ⟨fun h => absurd h (not_clean_addServerError _ _),fun h => absurd h.2 (by decide)⟩
    · rename_i mode h
      rw [h]
      exact (and_iff_left rfl).symm
  all_goals
    simp only [validateTimeout,hkind]
    refine (check_clean (s := s)).trans (and_congr_right' ?_)
    simp [Nat.one_le_iff_ne_zero]

theorem validateServerDirective_passes (h : Passes directive) :
    s.validateServerDirective directive = s.record directive := by
  cases hkind : directive.kind <;> simp only [Passes,hkind] at h <;> simp only [validateServerDirective,record,hkind]
  case bind => exact check_passes h
  case trustedProxy => exact check_passes h
  case port =>
    dsimp only [validatePort]
    rw [check_passes (by simpa [Nat.not_lt] using h)]
  case mimeTypesFile =>
    dsimp only [validateMimeTypesFile]
    rw [check_passes (by simpa using h)]
  case credentialsFile =>
    dsimp only [validateCredentialsFile]
    rw [check_passes (by simpa using h)]
  case logLevel =>
    unfold validateLogLevel
    obtain ⟨level,hlevel⟩ := Option.isSome_iff_exists.mp h
    rw [hlevel]
    rfl
  case transportMode =>
    unfold validateTransportMode
    obtain ⟨mode,hmode⟩ := Option.isSome_iff_exists.mp h
    rw [hmode]
    rfl
  all_goals
    dsimp only [validateTimeout]
    rw [check_passes (by simpa [Nat.not_lt,Nat.one_le_iff_ne_zero] using h)]
    simp only [hkind]

theorem validateDirectives_eq_walk (directives : List ParsedServerDirective) (encountered : List ServerDirectiveKind)
    (s : ValidationState) : validateDirectives directives encountered s =
      walk (·.kind) validateServerDirective
        (fun s directive => s.addServerError .duplicateServerDirective directive directive.location)
        directives encountered s := by
  induction directives generalizing encountered s with
  | nil => rfl
  | cons directive rest ih => simp only [validateDirectives,walk,ih]

/-- The walk over the server directives is clean when none is repeated and each passes. -/
theorem validateDirectives_clean (directives : List ParsedServerDirective) (s : ValidationState) :
    (validateDirectives directives [] s).Clean ↔
      s.Clean ∧ (directives.map (·.kind)).Nodup ∧ ∀ directive ∈ directives, Passes directive := by
  rw [validateDirectives_eq_walk,walk_clean_iff Clean Passes
    (fun _ _ => validateServerDirective_clean) (fun _ _ => not_clean_addServerError _ _),single_start]

theorem foldl_congr_passes {directives : List ParsedServerDirective} (h : ∀ directive ∈ directives, Passes directive)
    (s : ValidationState) : directives.foldl validateServerDirective s = directives.foldl record s := by
  induction directives generalizing s with
  | nil => rfl
  | cons directive rest ih =>
    rw [List.forall_mem_cons] at h
    rw [List.foldl_cons,List.foldl_cons,validateServerDirective_passes h.1,ih h.2]

theorem validateDirectives_record {directives : List ParsedServerDirective} (hsingle : (directives.map (·.kind)).Nodup)
    (hpasses : ∀ directive ∈ directives, Passes directive) (s : ValidationState) :
    validateDirectives directives [] s = directives.foldl record s := by
  rw [validateDirectives_eq_walk,walk_eq_foldl (single_start.mpr hsingle),foldl_congr_passes hpasses]

def start (server : ParsedServerBlock) : ValidationState := { server := { location := server.location } }

def recorded (server : ParsedServerBlock) : ValidationState := server.directives.foldl record (start server)

structure Sound (server : ParsedServerBlock) : Prop where
  single : (server.directives.map (·.kind)).Nodup
  passes : ∀ directive ∈ server.directives, Passes directive

variable {server : ParsedServerBlock} {α : Type*}

theorem recorded_location : (recorded server).server.location = server.location := by
  refine foldl_keeps (fun s => s.server.location) ?_ (start server)
  rintro s ⟨kind,_,_,_⟩
  cases kind <;> rfl

theorem recorded_transportModeValid : (recorded server).transportModeValid = true := by
  refine foldl_keeps ValidationState.transportModeValid ?_ (start server)
  rintro s ⟨kind,_,_,_⟩
  cases kind <;> rfl

theorem recorded_locations : (recorded server).server.locations = [] := by
  refine foldl_keeps (fun s => s.server.locations) ?_ (start server)
  rintro s ⟨kind,_,_,_⟩
  cases kind <;> rfl

theorem recorded_clean : (recorded server).Clean := by
  refine foldl_keeps ValidationState.errors ?_ (start server)
  rintro s ⟨kind,_,_,_⟩
  cases kind <;> rfl

theorem Sound.effective (h : Sound server) (field : ValidationState → α) {kind : ServerDirectiveKind}
    {make : α → ParsedConfigScalar}
    (hset : ∀ s directive, Passes directive → directive.kind = kind →
      directive.value.scalar = make (field (record s directive)))
    (hkeep : ∀ s directive, directive.kind ≠ kind → field (record s directive) = field s) :
    Effective server.given kind make (field (start server)) (field (recorded server)) := by
  rcases foldl_field field (fun directive a => directive.value.scalar = make a) hset hkeep h.single h.passes
    (start server) with ⟨directive,hmem,hkind,hscalar⟩ | ⟨hfield,hnone⟩
  · exact Or.inl (ParsedServerBlock.sets_iff.mpr ⟨directive,hmem,hkind,hscalar⟩)
  · exact Or.inr ⟨hfield,ParsedServerBlock.not_sets hnone⟩

theorem Sound.integer (h : Sound server) (field : ValidationState → UInt64) {kind : ServerDirectiveKind}
    (hkind : kind.expectation = .integerLiteral)
    (hset : ∀ s directive, directive.kind = kind → field (record s directive) = directive.value.scalar.number)
    (hkeep : ∀ s directive, directive.kind ≠ kind → field (record s directive) = field s) :
    Effective server.given kind .integer (field (start server)) (field (recorded server)) := by
  refine h.effective field ?_ hkeep
  rintro s directive - rfl
  rw [hset s directive rfl,directive.scalar_eq,hkind]
  rfl

/-- A field that stays empty unless a directive of the kind fills it. -/
theorem Sound.optional (h : Sound server) (kind : ServerDirectiveKind) (field : ValidationState → Option α)
    (value : ParsedServerDirective → α) (hstart : field (start server) = none)
    (hset : ∀ s directive, directive.kind = kind → field (record s directive) = some (value directive))
    (hkeep : ∀ s directive, directive.kind ≠ kind → field (record s directive) = field s) (a : α) :
    field (recorded server) = some a ↔ ∃ directive ∈ server.directives, directive.kind = kind ∧ value directive = a := by
  rcases foldl_field field (fun directive a => a = some (value directive)) (fun s directive _ hkind => hset s directive hkind)
    hkeep h.single h.passes (start server) with ⟨directive,hmem,hkind,hfield⟩ | ⟨hfield,hnone⟩
  · rw [recorded,hfield,Option.some.injEq]
    constructor
    · rintro rfl
      exact ⟨directive,hmem,hkind,rfl⟩
    · rintro ⟨other,hmem',hkind',rfl⟩
      rw [List.inj_on_of_nodup_map h.single hmem hmem' (hkind.trans hkind'.symm)]
  · rw [recorded,hfield,hstart]
    constructor
    · rintro ⟨⟩
    · rintro ⟨directive,hmem,hkind,-⟩
      exact absurd hkind (hnone directive hmem)

theorem Sound.slot (h : Sound server) (kind : ServerDirectiveKind)
    (field : ValidationState → Option ParsedServerDirective) (hstart : field (start server) = none)
    (hset : ∀ s directive, directive.kind = kind → field (record s directive) = some directive)
    (hkeep : ∀ s directive, directive.kind ≠ kind → field (record s directive) = field s)
    (directive : ParsedServerDirective) :
    field (recorded server) = some directive ↔ directive ∈ server.directives ∧ directive.kind = kind := by
  rw [h.optional kind field id hstart hset hkeep]
  simp only [id,exists_eq_right_right]

theorem Sound.multithreadingEnabled (h : Sound server) :
    Effective server.given .multithreading .boolean false (recorded server).multithreadingEnabled := by
  refine h.effective ValidationState.multithreadingEnabled ?_ ?_
  · intro s directive _ hkind
    rw [directive.scalar_eq]
    simp only [record,hkind,ServerDirectiveKind.expectation]
  · rintro s ⟨kind,_,_,_⟩ hkind
    cases kind <;> first | rfl | exact absurd rfl hkind

theorem Sound.workerThreads (h : Sound server) :
    Effective server.given .workerThreads .integer 0 (recorded server).workerThreads := by
  refine h.integer ValidationState.workerThreads rfl ?_ ?_
  · intro s directive hkind
    simp only [record,hkind]
  · rintro s ⟨kind,_,_,_⟩ hkind
    cases kind <;> first | rfl | exact absurd rfl hkind

theorem Sound.workerThreadsDirective (h : Sound server) (directive : ParsedServerDirective) :
    (recorded server).workerThreadsDirective = some directive ↔
      directive ∈ server.directives ∧ directive.kind = .workerThreads := by
  refine h.slot .workerThreads ValidationState.workerThreadsDirective rfl ?_ ?_ directive
  · intro s directive hkind
    simp only [record,hkind]
  · rintro s ⟨kind,_,_,_⟩ hkind
    cases kind <;> first | rfl | exact absurd rfl hkind

theorem Sound.trustedProxyDirective (h : Sound server) (directive : ParsedServerDirective) :
    (recorded server).trustedProxyDirective = some directive ↔
      directive ∈ server.directives ∧ directive.kind = .trustedProxy := by
  refine h.slot .trustedProxy ValidationState.trustedProxyDirective rfl ?_ ?_ directive
  · intro s directive hkind
    simp only [record,hkind]
  · rintro s ⟨kind,_,_,_⟩ hkind
    cases kind <;> first | rfl | exact absurd rfl hkind

theorem Sound.bindDirective (h : Sound server) (directive : ParsedServerDirective) :
    (recorded server).bindDirective = some directive ↔ directive ∈ server.directives ∧ directive.kind = .bind := by
  refine h.slot .bind ValidationState.bindDirective rfl ?_ ?_ directive
  · intro s directive hkind
    simp only [record,hkind]
  · rintro s ⟨kind,_,_,_⟩ hkind
    cases kind <;> first | rfl | exact absurd rfl hkind

theorem Sound.mode (h : Sound server) : Mode server.given (recorded server).server.transportMode := by
  refine h.effective (fun s => s.server.transportMode) ?_ ?_
  · intro s directive hpasses hkind
    simp only [Passes,hkind] at hpasses
    obtain ⟨mode,hmode⟩ := Option.isSome_iff_exists.mp hpasses
    rw [directive.scalar_eq]
    simp only [record,hkind,ServerDirectiveKind.expectation,hmode,Option.getD_some]
    rw [parseConfiguredTransportMode_iff.mp hmode]
  · rintro s ⟨kind,_,_,_⟩ hkind
    cases kind <;> first | rfl | exact absurd rfl hkind

theorem Sound.bind (h : Sound server) : Bind server.given (recorded server).bindAddress := by
  refine h.effective ValidationState.bindAddress ?_ ?_
  · intro s directive _ hkind
    rw [directive.scalar_eq]
    simp only [record,hkind,ServerDirectiveKind.expectation]
  · rintro s ⟨kind,_,_,_⟩ hkind
    cases kind <;> first | rfl | exact absurd rfl hkind

theorem ParsedServerBlock.mem_path {kind : ServerDirectiveKind} (hkind : kind.expectation = .stringLiteral)
    (path : ConfiguredPath) : (∃ directive ∈ server.directives, directive.kind = kind ∧
      ConfiguredPath.mk directive.value.scalar.text directive.value.location = path) ↔
        (kind,⟨.string path.value,path.location⟩) ∈ server.given := by
  rw [ParsedServerBlock.mem_given]
  refine exists_congr fun directive => and_congr_right' (and_congr_right ?_)
  rintro rfl
  have hscalar := directive.scalar_eq
  rw [hkind] at hscalar
  constructor
  · rintro rfl
    exact congrArg (ParsedConfigValue.mk · directive.value.location) hscalar
  · intro hvalue
    rw [hvalue]
    rfl

/-- A field for the path of a directive, with the place of the path. -/
theorem Sound.path (h : Sound server) {kind : ServerDirectiveKind} (hkind : kind.expectation = .stringLiteral)
    (field : ValidationState → Option ConfiguredPath) (hstart : field (start server) = none)
    (hset : ∀ s directive, directive.kind = kind →
      field (record s directive) = some ⟨directive.value.scalar.text,directive.value.location⟩)
    (hkeep : ∀ s directive, directive.kind ≠ kind → field (record s directive) = field s) (path : ConfiguredPath) :
    field (recorded server) = some path ↔ (kind,⟨.string path.value,path.location⟩) ∈ server.given :=
  (h.optional kind field (fun directive => ⟨directive.value.scalar.text,directive.value.location⟩) hstart hset hkeep
    path).trans (ParsedServerBlock.mem_path hkind path)

theorem Sound.mimeTypesFile (h : Sound server) (path : ConfiguredPath) :
    (recorded server).server.mimeTypesFile = some path ↔
      (.mimeTypesFile,⟨.string path.value,path.location⟩) ∈ server.given := by
  refine h.path rfl (fun s => s.server.mimeTypesFile) rfl ?_ ?_ path
  · intro s directive hkind
    simp only [record,hkind]
  · rintro s ⟨kind,_,_,_⟩ hkind
    cases kind <;> first | rfl | exact absurd rfl hkind

theorem Sound.credentialsFile (h : Sound server) (path : ConfiguredPath) :
    (recorded server).server.credentialsFile = some path ↔
      (.credentialsFile,⟨.string path.value,path.location⟩) ∈ server.given := by
  refine h.path rfl (fun s => s.server.credentialsFile) rfl ?_ ?_ path
  · intro s directive hkind
    simp only [record,hkind]
  · rintro s ⟨kind,_,_,_⟩ hkind
    cases kind <;> first | rfl | exact absurd rfl hkind

/-- Without a directive the credentials are in the default file. -/
theorem Sound.credentials (h : Sound server) :
    (.credentialsFile,⟨.string (recorded server).server.credentials.value,
      (recorded server).server.credentials.location⟩) ∈ server.given ∨
    (recorded server).server.credentials = ⟨ascii "credentials.conf",server.location⟩ ∧
      ∀ scalar, ¬Sets server.given .credentialsFile scalar := by
  rw [ServerSettings.credentials]
  cases hsome : (recorded server).server.credentialsFile with
  | some path => exact Or.inl ((h.credentialsFile path).mp hsome)
  | none =>
    refine Or.inr ⟨?_,?_⟩
    · rw [recorded_location]
    · intro scalar hsets
      obtain ⟨directive,hmem,hkind,-⟩ := ParsedServerBlock.sets_iff.mp hsets
      have hpath := (h.credentialsFile ⟨directive.value.scalar.text,directive.value.location⟩).mpr
        ((ParsedServerBlock.mem_path rfl _).mp ⟨directive,hmem,hkind,rfl⟩)
      rw [hsome] at hpath
      cases hpath

/-- The settings are those of the directives, apart from the locations. -/
theorem Sound.reflects (h : Sound server) {locations : List LocationSettings}
    (hlocations : List.Forall₂ LocationReflects server.locations locations) :
    Reflects server { (recorded server).server with locations } where
  location := recorded_location
  bindAddress := by
    refine h.effective (fun s => s.server.bindAddress) ?_ ?_
    · intro s directive _ hkind
      rw [directive.scalar_eq]
      simp only [record,hkind,ServerDirectiveKind.expectation]
    · rintro s ⟨kind,_,_,_⟩ hkind
      cases kind <;> first | rfl | exact absurd rfl hkind
  port := by
    refine h.effective (fun s => s.server.port) ?_ ?_
    · intro s directive hpasses hkind
      simp only [Passes,hkind] at hpasses
      have hport : directive.value.scalar.number.toUInt16.toUInt64 = directive.value.scalar.number := by
        rw [← UInt64.toNat_inj,UInt16.toNat_toUInt64,UInt64.toNat_toUInt16]
        exact Nat.mod_eq_of_lt (Nat.lt_succ_of_le hpasses.2)
      rw [directive.scalar_eq]
      simp only [record,hkind,ServerDirectiveKind.expectation,hport]
    · rintro s ⟨kind,_,_,_⟩ hkind
      cases kind <;> first | rfl | exact absurd rfl hkind
  multithreading := by
    refine h.effective (fun s => s.server.multithreadingEnabled) ?_ ?_
    · intro s directive _ hkind
      rw [directive.scalar_eq]
      simp only [record,hkind,ServerDirectiveKind.expectation]
    · rintro s ⟨kind,_,_,_⟩ hkind
      cases kind <;> first | rfl | exact absurd rfl hkind
  workerThreads := by
    refine h.integer (fun s => s.server.workerThreads) rfl (fun s directive hkind => by simp only [record,hkind]) ?_
    rintro s ⟨kind,_,_,_⟩ hkind
    cases kind <;> first | rfl | exact absurd rfl hkind
  logLevel := by
    refine h.effective (fun s => s.server.logLevel) ?_ ?_
    · intro s directive hpasses hkind
      simp only [Passes,hkind] at hpasses
      obtain ⟨level,hlevel⟩ := Option.isSome_iff_exists.mp hpasses
      rw [directive.scalar_eq]
      simp only [record,hkind,ServerDirectiveKind.expectation,hlevel,Option.getD_some]
      rw [parseConfiguredLogLevel_iff.mp hlevel]
    · rintro s ⟨kind,_,_,_⟩ hkind
      cases kind <;> first | rfl | exact absurd rfl hkind
  headerTimeout := by
    refine h.integer (fun s => s.server.headerTimeoutMs) rfl (fun s directive hkind => by simp only [record,hkind]) ?_
    rintro s ⟨kind,_,_,_⟩ hkind
    cases kind <;> first | rfl | exact absurd rfl hkind
  bodyTimeout := by
    refine h.integer (fun s => s.server.bodyTimeoutMs) rfl (fun s directive hkind => by simp only [record,hkind]) ?_
    rintro s ⟨kind,_,_,_⟩ hkind
    cases kind <;> first | rfl | exact absurd rfl hkind
  requestTimeout := by
    refine h.integer (fun s => s.server.requestTimeoutMs) rfl (fun s directive hkind => by simp only [record,hkind]) ?_
    rintro s ⟨kind,_,_,_⟩ hkind
    cases kind <;> first | rfl | exact absurd rfl hkind
  responseTimeout := by
    refine h.integer (fun s => s.server.responseTimeoutMs) rfl (fun s directive hkind => by simp only [record,hkind]) ?_
    rintro s ⟨kind,_,_,_⟩ hkind
    cases kind <;> first | rfl | exact absurd rfl hkind
  transportMode := h.mode
  trustedProxy := by
    intro text
    rw [ParsedServerBlock.sets_iff]
    refine (h.optional .trustedProxy (fun s => s.server.trustedProxy) (fun directive => directive.value.scalar.text) rfl ?_ ?_ text).trans
      (exists_congr fun directive => and_congr_right' (and_congr_right ?_))
    · intro s directive hkind
      simp only [record,hkind]
    · rintro s ⟨kind,_,_,_⟩ hkind
      cases kind <;> first | rfl | exact absurd rfl hkind
    · intro hkind
      rw [directive.scalar_eq,hkind]
      simp only [ServerDirectiveKind.expectation,ParsedConfigScalar.text,ParsedConfigScalar.string.injEq]
  mimeTypesFile := h.mimeTypesFile
  credentials := h.credentials
  locations := hlocations

/-- What `validate_threading_relationship` asks for. -/
def Threading (s : ValidationState) : Prop :=
  if s.multithreadingEnabled then
    s.workerThreadsDirective.isSome ∧
      minimumWorkerThreads ≤ s.workerThreads.toNat ∧ s.workerThreads.toNat ≤ maximumWorkerThreads
  else s.workerThreadsDirective = none

/-- What `validate_transport_relationship` asks for in the mode that is set. -/
def Transport (s : ValidationState) : Prop :=
  match s.server.transportMode with
  | .loopbackHttp => (s.bindDirective = none ∨ isLoopbackIpAddress s.bindAddress = true) ∧ s.trustedProxyDirective = none
  | .trustedLanHttp => s.trustedProxyDirective = none
  | .trustedProxyHttps =>
    s.trustedProxyDirective.isSome ∧ (s.bindDirective = none ∨ isUnspecifiedIpAddress s.bindAddress = false)

theorem validateThreadingRelationship_clean {location : SourceLocation} :
    (s.validateThreadingRelationship location).Clean ↔ s.Clean ∧ s.Threading := by
  unfold validateThreadingRelationship Threading
  split
  · cases hdirective : s.workerThreadsDirective with
    | none => exact ⟨fun h => absurd h (not_clean_addError _),fun h => absurd h.2.1 (by decide)⟩
    | some directive =>
      refine check_clean.trans (and_congr_right' ?_)
      simp
  · cases hdirective : s.workerThreadsDirective with
    | none => exact (and_iff_left rfl).symm
    | some directive => exact ⟨fun h => absurd h (not_clean_addServerError _ _),fun h => absurd h.2 nofun⟩

theorem validateThreadingRelationship_passes {location : SourceLocation} (h : s.Threading) :
    s.validateThreadingRelationship location = s := by
  unfold Threading at h
  unfold validateThreadingRelationship
  split
  · rename_i henabled
    rw [if_pos henabled] at h
    obtain ⟨directive,hdirective⟩ := Option.isSome_iff_exists.mp h.1
    rw [hdirective]
    exact check_passes (by simpa using h.2)
  · rename_i henabled
    rw [if_neg henabled] at h
    rw [h]

theorem rejectTrustedProxy_clean : s.rejectTrustedProxy.Clean ↔ s.Clean ∧ s.trustedProxyDirective = none := by
  unfold rejectTrustedProxy
  cases hdirective : s.trustedProxyDirective with
  | none => exact (and_iff_left rfl).symm
  | some directive => exact ⟨fun h => absurd h (not_clean_addServerError _ _),fun h => absurd h.2 nofun⟩

theorem rejectBind_clean {unsafeBind : Bool} :
    (s.rejectBind unsafeBind).Clean ↔ s.Clean ∧ (s.bindDirective = none ∨ unsafeBind = false) := by
  unfold rejectBind
  cases hdirective : s.bindDirective with
  | none => exact (and_iff_left (Or.inl rfl)).symm
  | some directive =>
    refine check_clean.trans (and_congr_right' ?_)
    simp

theorem rejectTrustedProxy_passes (h : s.trustedProxyDirective = none) : s.rejectTrustedProxy = s := by
  unfold rejectTrustedProxy
  rw [h]

theorem rejectBind_passes {unsafeBind : Bool} (h : s.bindDirective = none ∨ unsafeBind = false) :
    s.rejectBind unsafeBind = s := by
  unfold rejectBind
  cases hdirective : s.bindDirective with
  | none => rfl
  | some directive => exact check_passes (by simpa [hdirective] using h)

theorem rejectBind_trustedProxyDirective {unsafeBind : Bool} :
    (s.rejectBind unsafeBind).trustedProxyDirective = s.trustedProxyDirective := by
  unfold rejectBind check
  split
  · split <;> rfl
  · rfl

theorem validateTransportRelationship_clean {location : SourceLocation} :
    (s.validateTransportRelationship location).Clean ↔ s.Clean ∧ (s.transportModeValid = true → s.Transport) := by
  unfold validateTransportRelationship Transport
  cases s.transportModeValid with
  | false => exact (and_iff_left nofun).symm
  | true =>
    simp only [true_implies]
    cases s.server.transportMode with
    | loopbackHttp =>
      apply rejectTrustedProxy_clean.trans
      rw [rejectBind_clean,rejectBind_trustedProxyDirective,Bool.not_eq_false',and_assoc]
    | trustedLanHttp => exact rejectTrustedProxy_clean
    | trustedProxyHttps =>
      cases hdirective : s.trustedProxyDirective with
      | none =>
        apply rejectBind_clean.trans
        exact ⟨fun h => absurd h.1 (not_clean_addError _),fun h => absurd h.2.1 (by decide)⟩
      | some directive =>
        refine rejectBind_clean.trans (and_congr_right' ?_)
        exact (and_iff_right rfl).symm

theorem validateTransportRelationship_passes {location : SourceLocation} (h : s.Transport) :
    s.validateTransportRelationship location = s := by
  unfold Transport at h
  unfold validateTransportRelationship
  split
  · rfl
  · cases hmode : s.server.transportMode <;> rw [hmode] at h
    · rw [rejectBind_passes (h.1.imp_right fun h => by rw [h]; rfl),rejectTrustedProxy_passes h.2]
    · exact rejectTrustedProxy_passes h
    · obtain ⟨directive,hdirective⟩ := Option.isSome_iff_exists.mp h.1
      simp only [hdirective]
      exact rejectBind_passes h.2

/-- A directive is recorded exactly when its kind is set, to a scalar of the form that the kind demands. -/
theorem exists_sets {β : Type} {kind : ServerDirectiveKind} {slot : Option ParsedServerDirective}
    {form : β → ParsedConfigScalar}
    (h : ∀ directive, slot = some directive ↔ directive ∈ server.directives ∧ directive.kind = kind)
    (hform : ∀ directive : ParsedServerDirective, directive.kind = kind → ∃ x, directive.value.scalar = form x) :
    slot.isSome = true ↔ ∃ x, Sets server.given kind (form x) := by
  simp only [Option.isSome_iff_exists,h,ParsedServerBlock.sets_iff]
  constructor
  · rintro ⟨directive,hmem,hkind⟩
    obtain ⟨x,hx⟩ := hform directive hkind
    exact ⟨x,directive,hmem,hkind,hx⟩
  · rintro ⟨x,directive,hmem,hkind,-⟩
    exact ⟨directive,hmem,hkind⟩

theorem Sound.workers (h : Sound server) :
    (recorded server).workerThreadsDirective.isSome = true ↔
      ∃ count, Sets server.given .workerThreads (.integer count) := by
  refine exists_sets h.workerThreadsDirective fun directive hkind => ⟨directive.value.scalar.number,?_⟩
  rw [directive.scalar_eq,hkind]
  rfl

theorem Sound.proxy (h : Sound server) :
    (recorded server).trustedProxyDirective.isSome = true ↔
      ∃ text, Sets server.given .trustedProxy (.string text) := by
  refine exists_sets h.trustedProxyDirective fun directive hkind => ⟨directive.value.scalar.text,?_⟩
  rw [directive.scalar_eq,hkind]
  rfl

/-- The address of the recorded state; without a directive it is the default. -/
theorem Sound.bindAddress (h : Sound server) (hnone : (recorded server).bindDirective = none) :
    (recorded server).bindAddress = ascii "127.0.0.1" := by
  rcases h.bind with ⟨value,hmem,-⟩ | ⟨hdefault,-⟩
  · obtain ⟨directive,hmem,hkind,-⟩ := ParsedServerBlock.mem_given.mp hmem
    rw [(h.bindDirective directive).mpr ⟨hmem,hkind⟩] at hnone
    cases hnone
  · exact hdefault

theorem Sound.threading_iff (h : Sound server) : (recorded server).Threading ↔
    ((∃ count, Sets server.given .workerThreads (.integer count)) ↔ Sets server.given .multithreading (.boolean true)) ∧
      ∀ count, Sets server.given .workerThreads (.integer count) → 2 ≤ count.toNat ∧ count.toNat ≤ 64 := by
  have hnodup := ParsedServerBlock.single_iff.mpr h.single
  have henabled : Sets server.given .multithreading (.boolean true) ↔ (recorded server).multithreadingEnabled = true := by
    constructor
    · intro hsets
      exact Effective.unique hnodup (fun a b => by simp) h.multithreadingEnabled (Or.inl hsets)
    · intro hsets
      rcases h.multithreadingEnabled with heffective | ⟨hdefault,-⟩
      · rwa [hsets] at heffective
      · rw [hsets] at hdefault
        cases hdefault
  have hcount : ∀ count, Sets server.given .workerThreads (.integer count) → (recorded server).workerThreads = count :=
    fun count hsets => Effective.unique hnodup (fun a b => by simp) h.workerThreads (Or.inl hsets)
  rw [henabled,← h.workers]
  unfold Threading
  split
  · rename_i hon
    simp only [hon,iff_true]
    refine and_congr_right fun hsome => ?_
    obtain ⟨count,hsets⟩ := h.workers.mp hsome
    constructor
    · intro hrange count' hsets'
      rw [← hcount count' hsets']
      exact hrange
    · intro hrange
      rw [hcount count hsets]
      exact hrange count hsets
  · rename_i hoff
    simp only [hoff,Bool.false_eq_true,iff_false,Option.isSome_iff_ne_none,ne_eq,not_not]
    refine (and_iff_left_of_imp ?_).symm
    intro hnone count hsets
    have hsome := h.workers.mpr ⟨count,hsets⟩
    rw [hnone] at hsome
    cases hsome

theorem Sound.transport_iff (h : Sound server) : (recorded server).Transport ↔
    (Mode server.given .loopbackHttp → ∀ text, Bind server.given text →
      ∃ address, Ip.Denotes text address ∧ address.Loopback) ∧
    (Mode server.given .trustedProxyHttps → ∀ text, Bind server.given text → ∀ address, Ip.Denotes text address →
      ¬address.Wildcard) ∧
    ((∃ text, Sets server.given .trustedProxy (.string text)) ↔ Mode server.given .trustedProxyHttps) := by
  have hnodup := ParsedServerBlock.single_iff.mpr h.single
  have hmode : ∀ mode, Mode server.given mode ↔ (recorded server).server.transportMode = mode := by
    intro mode
    constructor
    · refine fun hmode => Effective.unique hnodup ?_ h.mode hmode
      exact fun a b hab => ConfiguredTransportMode.text_injective (ParsedConfigScalar.string.inj hab)
    · rintro rfl
      exact h.mode
  have hbind : ∀ text, Bind server.given text ↔ (recorded server).bindAddress = text := by
    intro text
    constructor
    · exact fun hbind => Effective.unique hnodup (fun a b => by simp) h.bind hbind
    · rintro rfl
      exact h.bind
  have hloopback : ((recorded server).bindDirective = none ∨ isLoopbackIpAddress (recorded server).bindAddress = true) ↔
      isLoopbackIpAddress (recorded server).bindAddress = true := by
    refine or_iff_right_of_imp fun hnone => ?_
    rw [h.bindAddress hnone]
    decide
  have hwildcard : ((recorded server).bindDirective = none ∨
      isUnspecifiedIpAddress (recorded server).bindAddress = false) ↔
        ∀ address, Ip.Denotes (recorded server).bindAddress address → ¬address.Wildcard := by
    rw [← Bool.not_eq_true,or_iff_right_of_imp,isUnspecifiedIpAddress_iff]
    · simp only [not_exists,not_and]
    · intro hnone
      rw [h.bindAddress hnone]
      decide
  simp only [hmode,hbind,forall_eq',← h.proxy,← isLoopbackIpAddress_iff]
  unfold Transport
  rw [hloopback,hwildcard]
  cases (recorded server).server.transportMode
  · simp [Option.isSome_iff_ne_none]
  · simp [Option.isSome_iff_ne_none]
  · simp [and_comm]

/-- Each directive passes when the values that the block sets are admissible. -/
theorem passes_iff : (∀ directive ∈ server.directives, Passes directive) ↔
    (∀ text, Sets server.given .bind (.string text) → ∃ address, Ip.Denotes text address) ∧
    (∀ text, Sets server.given .trustedProxy (.string text) → ∃ address, Ip.Denotes text address) ∧
    (∀ port, Sets server.given .port (.integer port) → 1 ≤ port.toNat ∧ port.toNat ≤ 65535) ∧
    (∀ kind, kind.Timeout → ∀ value, Sets server.given kind (.integer value) →
      1 ≤ value.toNat ∧ value.toNat ≤ 86400000) ∧
    (∀ text, Sets server.given .logLevel (.string text) → ∃ level : ConfiguredLogLevel, text = level.text) ∧
    (∀ text, Sets server.given .transportMode (.string text) → ∃ mode : ConfiguredTransportMode, text = mode.text) ∧
    ¬Sets server.given .mimeTypesFile (.string []) ∧ ¬Sets server.given .credentialsFile (.string []) := by
  simp only [ParsedServerBlock.sets_iff]
  constructor
  · intro h
    refine ⟨?_,?_,?_,?_,?_,?_,?_,?_⟩
    · rintro text ⟨directive,hmem,hkind,hscalar⟩
      have hpasses := h directive hmem
      simp only [Passes,hkind,hscalar] at hpasses
      exact numeric_iff.mp hpasses
    · rintro text ⟨directive,hmem,hkind,hscalar⟩
      have hpasses := h directive hmem
      simp only [Passes,hkind,hscalar] at hpasses
      exact numeric_iff.mp hpasses
    · rintro port ⟨directive,hmem,hkind,hscalar⟩
      have hpasses := h directive hmem
      simp only [Passes,hkind,hscalar] at hpasses
      exact hpasses
    · rintro kind htimeout value ⟨directive,hmem,hkind,hscalar⟩
      have hpasses := h directive hmem
      rcases htimeout with rfl | rfl | rfl | rfl <;> simp only [Passes,hkind,hscalar] at hpasses <;> exact hpasses
    · rintro text ⟨directive,hmem,hkind,hscalar⟩
      have hpasses := h directive hmem
      simp only [Passes,hkind,hscalar] at hpasses
      obtain ⟨level,hlevel⟩ := Option.isSome_iff_exists.mp hpasses
      exact ⟨level,parseConfiguredLogLevel_iff.mp hlevel⟩
    · rintro text ⟨directive,hmem,hkind,hscalar⟩
      have hpasses := h directive hmem
      simp only [Passes,hkind,hscalar] at hpasses
      obtain ⟨mode,hmode⟩ := Option.isSome_iff_exists.mp hpasses
      exact ⟨mode,parseConfiguredTransportMode_iff.mp hmode⟩
    · rintro ⟨directive,hmem,hkind,hscalar⟩
      have hpasses := h directive hmem
      simp only [Passes,hkind,hscalar] at hpasses
      exact hpasses rfl
    · rintro ⟨directive,hmem,hkind,hscalar⟩
      have hpasses := h directive hmem
      simp only [Passes,hkind,hscalar] at hpasses
      exact hpasses rfl
  · rintro ⟨hbind,hproxy,hport,htimeout,hlevel,hmode,hmime,hcredentials⟩ directive hmem
    have hscalar := directive.scalar_eq
    cases hkind : directive.kind <;> rw [hkind] at hscalar <;> simp only [Passes,hkind]
    case bind => exact numeric_iff.mpr (hbind _ ⟨directive,hmem,hkind,hscalar⟩)
    case trustedProxy => exact numeric_iff.mpr (hproxy _ ⟨directive,hmem,hkind,hscalar⟩)
    case port => exact hport _ ⟨directive,hmem,hkind,hscalar⟩
    case logLevel =>
      obtain ⟨level,hlevel⟩ := hlevel _ ⟨directive,hmem,hkind,hscalar⟩
      exact Option.isSome_iff_exists.mpr ⟨level,parseConfiguredLogLevel_iff.mpr hlevel⟩
    case transportMode =>
      obtain ⟨mode,hmode⟩ := hmode _ ⟨directive,hmem,hkind,hscalar⟩
      exact Option.isSome_iff_exists.mpr ⟨mode,parseConfiguredTransportMode_iff.mpr hmode⟩
    case mimeTypesFile =>
      intro hempty
      rw [hempty] at hscalar
      exact hmime ⟨directive,hmem,hkind,hscalar⟩
    case credentialsFile =>
      intro hempty
      rw [hempty] at hscalar
      exact hcredentials ⟨directive,hmem,hkind,hscalar⟩
    case headerTimeoutMs => exact htimeout _ (Or.inl rfl) _ ⟨directive,hmem,hkind,hscalar⟩
    case bodyTimeoutMs => exact htimeout _ (Or.inr (Or.inl rfl)) _ ⟨directive,hmem,hkind,hscalar⟩
    case requestTimeoutMs => exact htimeout _ (Or.inr (Or.inr (Or.inl rfl))) _ ⟨directive,hmem,hkind,hscalar⟩
    case responseTimeoutMs => exact htimeout _ (Or.inr (Or.inr (Or.inr rfl))) _ ⟨directive,hmem,hkind,hscalar⟩

theorem sound_iff : Sound server ↔ (validateDirectives server.directives [] (start server)).Clean := by
  rw [validateDirectives_clean]
  exact ⟨fun h => ⟨rfl,h.single,h.passes⟩,fun h => ⟨h.2.1,h.2.2⟩⟩

theorem validServer_iff : ValidServer server.given ↔
    Sound server ∧ (recorded server).Threading ∧ (recorded server).Transport := by
  constructor
  · intro h
    have hsound : Sound server := by
      refine ⟨ParsedServerBlock.single_iff.mp h.single,passes_iff.mpr ?_⟩
      exact ⟨h.bind,h.trustedProxy,h.port,h.timeouts,h.logLevel,h.transportMode,h.mimeTypesFile,h.credentialsFile⟩
    refine ⟨hsound,hsound.threading_iff.mpr ⟨h.workerThreads,h.workerRange⟩,hsound.transport_iff.mpr ?_⟩
    exact ⟨h.loopback,h.wildcard,h.proxy⟩
  · rintro ⟨hsound,hthreading,htransport⟩
    obtain ⟨hbind,hproxy,hport,htimeouts,hlevel,hmode,hmime,hcredentials⟩ := passes_iff.mp hsound.passes
    obtain ⟨hworkers,hrange⟩ := hsound.threading_iff.mp hthreading
    obtain ⟨hloopback,hwildcard,hpresent⟩ := hsound.transport_iff.mp htransport
    exact ⟨ParsedServerBlock.single_iff.mpr hsound.single,hbind,hproxy,hport,hworkers,hrange,htimeouts,hlevel,hmode,
      hloopback,hwildcard,hpresent,hmime,hcredentials⟩

/-- On a valid block every rule passes, and the state goes on as it was recorded. -/
theorem validateServerDirectives_passes (h : ValidServer server.given) :
    (start server).validateServerDirectives server = recorded server := by
  obtain ⟨hsound,hthreading,htransport⟩ := validServer_iff.mp h
  have hwalk : validateDirectives server.directives [] (start server) = recorded server :=
    validateDirectives_record hsound.single hsound.passes (start server)
  rw [validateServerDirectives,hwalk,validateThreadingRelationship_passes hthreading,
    validateTransportRelationship_passes htransport]

theorem validateServerDirectives_clean :
    ((start server).validateServerDirectives server).Clean ↔ ValidServer server.given := by
  constructor
  · intro h
    obtain ⟨hchecked,htransport⟩ := validateTransportRelationship_clean.mp h
    obtain ⟨hwalked,hthreading⟩ := validateThreadingRelationship_clean.mp hchecked
    have hsound := sound_iff.mpr hwalked
    have hwalk : validateDirectives server.directives [] (start server) = recorded server :=
      validateDirectives_record hsound.single hsound.passes (start server)
    rw [hwalk] at hthreading htransport
    rw [validateThreadingRelationship_passes hthreading] at htransport
    exact validServer_iff.mpr ⟨hsound,hthreading,htransport recorded_transportModeValid⟩
  · intro h
    rw [validateServerDirectives_passes h]
    exact recorded_clean

end ValidationState

end SpareNode.Configuration
