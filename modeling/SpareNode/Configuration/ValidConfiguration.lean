import SpareNode.Configuration.ConfigValidator

/-! # Valid configurations

The semantic rules of the format, without an order of the directives: what the directives of a block set,
which of the settings go together and which location paths may stand beside each other.
-/
namespace SpareNode.Configuration

/-- The bytes of a segment: written plainly or by a percent escape. -/
inductive PathText : Bytes → Prop
  | nil : PathText []
  | plain {b : Byte} {s : Bytes} (hb : isPathByte b = true) (h : PathText s) : PathText (b :: s)
  | escape {high low : Byte} {s : Bytes} (hhigh : isPathHexadecimal high = true) (hlow : isPathHexadecimal low = true)
      (h : PathText s) : PathText (char '%' :: high :: low :: s)

structure Segment (s : Bytes) : Prop where
  text : PathText s
  nonempty : s ≠ []
  dot : s ≠ ascii "."
  dots : s ≠ ascii ".."

inductive Segments : Bytes → Prop
  | last {s : Bytes} (h : Segment s) : Segments s
  | cons {s t : Bytes} (h : Segment s) (ht : Segments t) : Segments (s ++ char '/' :: t)

/-- The root, or segments with a slash before each. -/
def LocationPath (path : Bytes) : Prop := path = ascii "/" ∨ ∃ rest, path = char '/' :: rest ∧ Segments rest

/-- The child is the parent or lies below it, on a boundary of segments. -/
def Nested (parent child : Bytes) : Prop :=
  child = parent ∨ parent = ascii "/" ∨ ∃ rest, child = parent ++ char '/' :: rest

theorem isPathByte_plain : ∀ b, isPathByte b = true → b ≠ char '/' ∧ b ≠ char '%' := forall_byte (by decide +kernel)

theorem isPathHexadecimal_plain : ∀ b, isPathHexadecimal b = true → b ≠ char '/' := forall_byte (by decide +kernel)

theorem PathText.no_slash {s : Bytes} (h : PathText s) : char '/' ∉ s := by
  induction h with
  | nil => exact List.not_mem_nil
  | plain hb _ ih =>
    rw [List.mem_cons,not_or]
    exact ⟨(isPathByte_plain _ hb).1.symm,ih⟩
  | escape hhigh hlow _ ih =>
    rw [List.mem_cons,List.mem_cons,List.mem_cons,not_or,not_or,not_or]
    exact ⟨by decide,(isPathHexadecimal_plain _ hhigh).symm,(isPathHexadecimal_plain _ hlow).symm,ih⟩

theorem validLocationBytes_plain {b : Byte} {s : Bytes} (hb : isPathByte b = true) :
    validLocationBytes (b :: s) = validLocationBytes s := by
  rw [validLocationBytes.eq_def]
  simp [hb]

theorem validLocationBytes_slash (s : Bytes) : validLocationBytes (char '/' :: s) = validLocationBytes s := by
  rw [validLocationBytes.eq_def]
  simp

theorem validLocationBytes_percent (s : Bytes) : validLocationBytes (char '%' :: s) =
    match s with
    | high :: low :: rest => isPathHexadecimal high && isPathHexadecimal low && validLocationBytes rest
    | _ => false := by
  have hpercent : (decide (char '%' = char '/') || isPathByte (char '%')) = false := by decide
  rw [validLocationBytes.eq_def]
  simp only [hpercent,Bool.false_eq_true,if_false,ne_eq,not_true_eq_false]
  cases s with
  | nil => rfl
  | cons high s => cases s <;> rfl

theorem pathText_percent {s : Bytes} : PathText (char '%' :: s) ↔ ∃ high low rest, s = high :: low :: rest ∧
    isPathHexadecimal high = true ∧ isPathHexadecimal low = true ∧ PathText rest := by
  constructor
  · intro h
    cases h with
    | plain hb => exact absurd rfl (isPathByte_plain _ hb).2
    | escape hhigh hlow h => exact ⟨_,_,_,rfl,hhigh,hlow,h⟩
  · rintro ⟨high,low,rest,rfl,hhigh,hlow,h⟩
    exact .escape hhigh hlow h

/-- A text without a slash in it, up to the end or to the next slash. -/
theorem validLocationBytes_text {s t : Bytes} (hs : char '/' ∉ s) (ht : t = [] ∨ t.head? = some (char '/')) :
    validLocationBytes (s ++ t) = true ↔ PathText s ∧ validLocationBytes t = true := by
  induction hlength : s.length using Nat.strong_induction_on generalizing s with
  | _ n ih =>
    cases s with
    | nil => exact ⟨fun h => ⟨.nil,h⟩,fun h => h.2⟩
    | cons b s =>
      rw [List.mem_cons,not_or] at hs
      have hslash : b ≠ char '/' := fun h => hs.1 h.symm
      by_cases hb : isPathByte b = true
      · rw [List.cons_append,validLocationBytes_plain hb,ih s.length (by rw [← hlength]; simp) hs.2 rfl]
        refine and_congr_left' ⟨.plain hb,?_⟩
        intro h
        cases h with
        | plain _ h => exact h
        | escape => exact absurd rfl (isPathByte_plain _ hb).2
      · by_cases hpercent : b = char '%'
        · subst hpercent
          have hstop : isPathHexadecimal (char '/') = false := by decide
          rw [List.cons_append,validLocationBytes_percent,pathText_percent]
          -- an escape ends before the next slash
          rcases s with _ | ⟨high,_ | ⟨low,s⟩⟩
          · rcases t with _ | ⟨x,_ | ⟨y,t⟩⟩
            · simp
            · simp
            · obtain rfl : x = char '/' := by simpa using ht
              simp [hstop]
          · rcases t with _ | ⟨x,t⟩
            · simp
            · obtain rfl : x = char '/' := by simpa using ht
              simp [hstop]
          · have hrest : char '/' ∉ s := fun h => hs.2 (List.mem_cons_of_mem _ (List.mem_cons_of_mem _ h))
            have hshort : s.length < n := by
              rw [← hlength]
              simp only [List.length_cons]
              omega
            simp only [List.cons_append,Bool.and_eq_true,ih s.length hshort hrest rfl]
            constructor
            · rintro ⟨⟨hhigh,hlow⟩,htext,hmore⟩
              exact ⟨⟨high,low,s,rfl,hhigh,hlow,htext⟩,hmore⟩
            · rintro ⟨⟨high',low',s',hsplit,hhigh,hlow,htext⟩,hmore⟩
              simp only [List.cons.injEq] at hsplit
              obtain ⟨rfl,rfl,rfl⟩ := hsplit
              exact ⟨⟨hhigh,hlow⟩,htext,hmore⟩
        · constructor
          · intro h
            rw [List.cons_append,validLocationBytes.eq_def] at h
            simp [hslash,hb,hpercent] at h
          · rintro ⟨h,-⟩
            cases h with
            | plain hb' _ => exact absurd hb' hb
            | escape => exact absurd rfl hpercent

theorem segment_iff {s : Bytes} : Segment s ↔
    PathText s ∧ (s.isEmpty || s = ascii "." || s = ascii "..") = false := by
  simp only [Bool.or_eq_false_iff,List.isEmpty_eq_false_iff,decide_eq_false_iff_not]
  constructor
  · rintro ⟨htext,hne,hdot,hdots⟩
    exact ⟨htext,⟨hne,hdot⟩,hdots⟩
  · rintro ⟨htext,⟨hne,hdot⟩,hdots⟩
    exact ⟨htext,hne,hdot,hdots⟩

theorem segments_append {s t : Bytes} (hs : char '/' ∉ s) :
    Segments (s ++ char '/' :: t) ↔ Segment s ∧ Segments t := by
  constructor
  · intro h
    generalize hrest : s ++ char '/' :: t = rest at h
    cases h with
    | last h => exact absurd (by rw [← hrest]; simp) h.text.no_slash
    | @cons s' t' h ht =>
      have hfind := find_append t hs
      rw [hrest,find_append t' h.text.no_slash] at hfind
      obtain ⟨rfl,hcut⟩ := List.append_inj hrest (Option.some.inj hfind).symm
      exact ⟨h,(List.cons.inj hcut).2 ▸ ht⟩
  · rintro ⟨h,ht⟩
    exact .cons h ht

theorem validLocationSegments_iff (rest : Bytes) (hne : rest ≠ []) (hlast : rest.getLast? ≠ some (char '/')) :
    validLocationBytes rest = true ∧ validLocationSegments rest = true ↔ Segments rest := by
  fun_induction validLocationSegments rest with
  | case1 => exact absurd rfl hne
  | case2 rest _ hseparator =>
    have hslash : char '/' ∉ rest := find_eq_none_iff.mp hseparator
    have hbytes := validLocationBytes_text (t := []) hslash (Or.inl rfl)
    rw [List.append_nil] at hbytes
    rw [hbytes,Bool.not_eq_true']
    constructor
    · rintro ⟨⟨htext,-⟩,hsegment⟩
      exact .last (segment_iff.mpr ⟨htext,hsegment⟩)
    · intro h
      cases h with
      | last h => exact ⟨⟨h.text,rfl⟩,(segment_iff.mp h).2⟩
      | cons h ht => exact absurd (by simp) hslash
  | case3 rest _ separator hseparator segment hbad =>
    obtain ⟨hsplit,hslash⟩ := find_split hseparator
    constructor
    · rintro ⟨-,h⟩
      cases h
    · intro h
      rw [hsplit,segments_append hslash] at h
      exact absurd hbad (by rw [(segment_iff.mp h.1).2]; simp)
  | case4 rest _ separator hseparator segment hgood ih =>
    obtain ⟨hsplit,hslash⟩ := find_split hseparator
    have hmore : rest.drop (separator + 1) ≠ [] ∧ (rest.drop (separator + 1)).getLast? ≠ some (char '/') := by
      constructor
      · intro hempty
        rw [hsplit,hempty] at hlast
        simp at hlast
      · intro hend
        rw [hsplit] at hlast
        apply hlast
        rw [List.getLast?_append,List.getLast?_cons,hend]
        rfl
    have hbytes := validLocationBytes_text (t := char '/' :: rest.drop (separator + 1)) hslash (Or.inr rfl)
    rw [← hsplit,validLocationBytes_slash] at hbytes
    have hsegments := segments_append (t := rest.drop (separator + 1)) hslash
    rw [← hsplit] at hsegments
    rw [hbytes,hsegments,← ih hmore.1 hmore.2,segment_iff]
    simp only [Bool.not_eq_true] at hgood
    tauto

theorem Segments.last_ne {s : Bytes} (h : Segments s) : s ≠ [] ∧ s.getLast? ≠ some (char '/') := by
  induction h with
  | last h => exact ⟨h.nonempty,fun hend => h.text.no_slash (List.mem_of_getLast? hend)⟩
  | cons h ht ih =>
    refine ⟨by simp,?_⟩
    rw [List.getLast?_append,List.getLast?_cons_of_ne_nil ih.1,List.getLast?_eq_some_getLast ih.1]
    simpa [List.getLast?_eq_some_getLast ih.1] using ih.2

theorem isValidLocationPath_iff {path : Bytes} : isValidLocationPath path = true ↔ LocationPath path := by
  unfold isValidLocationPath LocationPath
  cases path with
  | nil =>
    constructor
    · intro h
      cases h
    · rintro (h | ⟨rest,h,-⟩) <;> cases h
  | cons b rest =>
    by_cases hb : b = char '/'
    · subst hb
      by_cases hrest : rest = []
      · subst hrest
        exact ⟨fun _ => Or.inl (by decide),fun _ => by decide⟩
      · have hroot : char '/' :: rest ≠ ascii "/" := fun h => hrest (List.cons.inj h).2
        have hpath : (char '/' :: rest = ascii "/" ∨ ∃ rest', char '/' :: rest = char '/' :: rest' ∧ Segments rest') ↔
            Segments rest := by
          constructor
          · rintro (h | ⟨rest',h,hsegments⟩)
            · exact absurd h hroot
            · obtain ⟨-,rfl⟩ := List.cons.inj h
              exact hsegments
          · exact fun h => Or.inr ⟨rest,rfl,h⟩
        rw [hpath,List.getLast?_cons_of_ne_nil hrest]
        by_cases hlast : rest.getLast? = some (char '/')
        · rw [if_pos (by simp [hlast,List.length_pos_of_ne_nil hrest])]
          constructor
          · intro h
            cases h
          · exact fun h => absurd hlast h.last_ne.2
        · rw [if_neg (by simp [hlast]),List.drop_succ_cons,List.drop_zero,if_neg hroot,
            ← validLocationSegments_iff rest hrest hlast]
          cases validLocationBytes rest <;> simp
    · have hfirst : ((b :: rest).isEmpty || decide ((b :: rest).head? ≠ some (char '/')) ||
          (decide (1 < (b :: rest).length) && decide ((b :: rest).getLast? = some (char '/')))) = true := by
        simp [hb]
      rw [if_pos hfirst]
      constructor
      · intro h
        cases h
      · rintro (h | ⟨rest',h,-⟩)
        · exact absurd (List.cons.inj h).1 hb
        · exact absurd (List.cons.inj h).1 hb

theorem locationPathContains_iff {parent child : Bytes} : locationPathContains parent child = true ↔
    Nested parent child := by
  simp only [locationPathContains,Bool.or_eq_true,decide_eq_true_eq,Bool.and_eq_true,List.isPrefixOf_iff_prefix,Nested,
    or_assoc,eq_comm (a := parent) (b := child)]
  refine or_congr_right (or_congr_right ?_)
  constructor
  · rintro ⟨⟨⟨t,rfl⟩,hlength⟩,hslash⟩
    rw [List.getElem?_append_right le_rfl,Nat.sub_self] at hslash
    cases t with
    | nil => simp at hlength
    | cons b t =>
      obtain rfl : b = char '/' := by simpa using hslash
      exact ⟨t,rfl⟩
  · rintro ⟨rest,rfl⟩
    refine ⟨⟨List.prefix_append _ _,by simp⟩,?_⟩
    simp

section
variable {κ α : Type*}

/-- A directive of the kind stands in the block and holds the value. -/
def Sets (given : List (κ × ParsedConfigValue)) (kind : κ) (scalar : ParsedConfigScalar) : Prop :=
  ∃ value, (kind,value) ∈ given ∧ value.scalar = scalar

/-- The setting is what the block sets, or the default where no directive of the kind stands in it. -/
def Effective (given : List (κ × ParsedConfigValue)) (kind : κ) (make : α → ParsedConfigScalar)
    (default setting : α) : Prop :=
  Sets given kind (make setting) ∨ setting = default ∧ ∀ scalar, ¬Sets given kind scalar
end

def ParsedServerBlock.given (server : ParsedServerBlock) : List (ServerDirectiveKind × ParsedConfigValue) :=
  server.directives.map fun directive => (directive.kind,directive.value)

def ParsedLocationBlock.given (location : ParsedLocationBlock) : List (LocationDirectiveKind × ParsedConfigValue) :=
  location.directives.map fun directive => (directive.kind,directive.value)

def ConfiguredLogLevel.text : ConfiguredLogLevel → Bytes
  | .debug => ascii "debug"
  | .info => ascii "info"
  | .warning => ascii "warning"
  | .error => ascii "error"

def ConfiguredTransportMode.text : ConfiguredTransportMode → Bytes
  | .loopbackHttp => ascii "loopback_http"
  | .trustedLanHttp => ascii "trusted_lan_http"
  | .trustedProxyHttps => ascii "trusted_proxy_https"

def ServerDirectiveKind.Timeout (kind : ServerDirectiveKind) : Prop :=
  kind = .headerTimeoutMs ∨ kind = .bodyTimeoutMs ∨ kind = .requestTimeoutMs ∨ kind = .responseTimeoutMs

def Mode (given : List (ServerDirectiveKind × ParsedConfigValue)) (mode : ConfiguredTransportMode) : Prop :=
  Effective given .transportMode (fun mode => .string mode.text) .loopbackHttp mode

def Bind (given : List (ServerDirectiveKind × ParsedConfigValue)) (text : Bytes) : Prop :=
  Effective given .bind .string (ascii "127.0.0.1") text

structure ValidServer (given : List (ServerDirectiveKind × ParsedConfigValue)) : Prop where
  single : (given.map (·.1)).Nodup
  bind : ∀ text, Sets given .bind (.string text) → ∃ address, Ip.Denotes text address
  trustedProxy : ∀ text, Sets given .trustedProxy (.string text) → ∃ address, Ip.Denotes text address
  port : ∀ port, Sets given .port (.integer port) → 1 ≤ port.toNat ∧ port.toNat ≤ 65535
  workerThreads : (∃ count, Sets given .workerThreads (.integer count)) ↔ Sets given .multithreading (.boolean true)
  workerRange : ∀ count, Sets given .workerThreads (.integer count) → 2 ≤ count.toNat ∧ count.toNat ≤ 64
  timeouts : ∀ kind, kind.Timeout → ∀ value, Sets given kind (.integer value) →
    1 ≤ value.toNat ∧ value.toNat ≤ 86400000
  logLevel : ∀ text, Sets given .logLevel (.string text) → ∃ level : ConfiguredLogLevel, text = level.text
  transportMode : ∀ text, Sets given .transportMode (.string text) → ∃ mode : ConfiguredTransportMode, text = mode.text
  loopback : Mode given .loopbackHttp → ∀ text, Bind given text → ∃ address, Ip.Denotes text address ∧ address.Loopback
  wildcard : Mode given .trustedProxyHttps → ∀ text, Bind given text → ∀ address, Ip.Denotes text address →
    ¬address.Wildcard
  proxy : (∃ text, Sets given .trustedProxy (.string text)) ↔ Mode given .trustedProxyHttps
  mimeTypesFile : ¬Sets given .mimeTypesFile (.string [])
  credentialsFile : ¬Sets given .credentialsFile (.string [])

structure ValidLocation (location : ParsedLocationBlock) : Prop where
  path : LocationPath location.apiPath
  single : (location.given.map (·.1)).Nodup
  root : ∃ text, Sets location.given .path (.string text) ∧ text ≠ []

/-- No two of the paths lie one below the other. -/
def Disjoint (paths : List Bytes) : Prop := paths.Pairwise fun a b => ¬Nested a b ∧ ¬Nested b a

structure ValidConfiguration (configuration : ParsedConfiguration) : Prop where
  server : ValidServer configuration.server.given
  nonempty : configuration.server.locations ≠ []
  locations : ∀ location ∈ configuration.server.locations, ValidLocation location
  disjoint : Disjoint (configuration.server.locations.map (·.apiPath))

structure LocationReflects (location : ParsedLocationBlock) (settings : LocationSettings) : Prop where
  apiPath : settings.apiPath = location.apiPath
  root : (.path,⟨.string settings.root.value,settings.root.location⟩) ∈ location.given
  allowRead : Effective location.given .readPermission .boolean true settings.allowRead
  allowWrite : Effective location.given .writePermission .boolean false settings.allowWrite
  allowDelete : Effective location.given .deletePermission .boolean false settings.allowDelete

/-- The settings are the values of the directives and the defaults, with the locations in their order. -/
structure Reflects (server : ParsedServerBlock) (settings : ServerSettings) : Prop where
  location : settings.location = server.location
  bindAddress : Bind server.given settings.bindAddress
  port : Effective server.given .port (fun port : UInt16 => .integer port.toUInt64) 8080 settings.port
  multithreading : Effective server.given .multithreading .boolean false settings.multithreadingEnabled
  workerThreads : Effective server.given .workerThreads .integer 1 settings.workerThreads
  logLevel : Effective server.given .logLevel (fun level => .string level.text) .info settings.logLevel
  headerTimeout : Effective server.given .headerTimeoutMs .integer 10000 settings.headerTimeoutMs
  bodyTimeout : Effective server.given .bodyTimeoutMs .integer 10000 settings.bodyTimeoutMs
  requestTimeout : Effective server.given .requestTimeoutMs .integer 30000 settings.requestTimeoutMs
  responseTimeout : Effective server.given .responseTimeoutMs .integer 300000 settings.responseTimeoutMs
  transportMode : Mode server.given settings.transportMode
  trustedProxy : ∀ text, settings.trustedProxy = some text ↔ Sets server.given .trustedProxy (.string text)
  mimeTypesFile : ∀ path, settings.mimeTypesFile = some path ↔
    (.mimeTypesFile,⟨.string path.value,path.location⟩) ∈ server.given
  credentials : (.credentialsFile,⟨.string settings.credentials.value,settings.credentials.location⟩) ∈ server.given ∨
    settings.credentials = ⟨ascii "credentials.conf",server.location⟩ ∧
      ∀ scalar, ¬Sets server.given .credentialsFile scalar
  locations : List.Forall₂ LocationReflects server.locations settings.locations

def scalars {κ : Type*} (given : List (κ × ParsedConfigValue)) : List (κ × ParsedConfigScalar) :=
  given.map fun directive => (directive.1,directive.2.scalar)

/-- The same location with its directives in another order. -/
structure LocationReordered (a b : ParsedLocationBlock) : Prop where
  apiPath : a.apiPath = b.apiPath
  directives : (scalars a.given).Perm (scalars b.given)

/-- The same directives and locations in another order, wherever they stand in their texts. -/
structure Reordered (a b : ParsedConfiguration) : Prop where
  directives : (scalars a.server.given).Perm (scalars b.server.given)
  locations : ∃ between, a.server.locations.Perm between ∧ List.Forall₂ LocationReordered between b.server.locations

theorem sets_iff_scalars {κ : Type*} {given : List (κ × ParsedConfigValue)} {kind : κ} {scalar : ParsedConfigScalar} :
    Sets given kind scalar ↔ (kind,scalar) ∈ scalars given := by
  simp only [Sets,scalars,List.mem_map,Prod.exists,Prod.mk.injEq]
  constructor
  · rintro ⟨value,hmem,hscalar⟩
    exact ⟨kind,value,hmem,rfl,hscalar⟩
  · rintro ⟨kind',value,hmem,rfl,hscalar⟩
    exact ⟨value,hmem,hscalar⟩

theorem sets_perm {κ : Type*} {a b : List (κ × ParsedConfigValue)} (h : (scalars a).Perm (scalars b)) :
    @Sets κ a = Sets b := by
  funext kind scalar
  rw [sets_iff_scalars,sets_iff_scalars,h.mem_iff]

theorem kinds_perm {κ : Type*} {a b : List (κ × ParsedConfigValue)} (h : (scalars a).Perm (scalars b)) :
    (a.map (·.1)).Nodup ↔ (b.map (·.1)).Nodup := by
  have hkinds := (h.map (·.1)).nodup_iff
  simpa only [scalars,List.map_map,Function.comp_def] using hkinds

theorem ValidServer.perm {a b : List (ServerDirectiveKind × ParsedConfigValue)} (h : (scalars a).Perm (scalars b))
    (ha : ValidServer a) : ValidServer b := by
  have hsets := sets_perm h
  have hmode : Mode a = Mode b := by
    funext mode
    simp only [Mode,Effective,hsets]
  have hbind : Bind a = Bind b := by
    funext text
    simp only [Bind,Effective,hsets]
  constructor
  · exact (kinds_perm h).mp ha.single
  · exact hsets ▸ ha.bind
  · exact hsets ▸ ha.trustedProxy
  · exact hsets ▸ ha.port
  · exact hsets ▸ ha.workerThreads
  · exact hsets ▸ ha.workerRange
  · exact hsets ▸ ha.timeouts
  · exact hsets ▸ ha.logLevel
  · exact hsets ▸ ha.transportMode
  · exact hbind ▸ hmode ▸ ha.loopback
  · exact hbind ▸ hmode ▸ ha.wildcard
  · exact hmode ▸ hsets ▸ ha.proxy
  · exact hsets ▸ ha.mimeTypesFile
  · exact hsets ▸ ha.credentialsFile

theorem LocationReordered.valid {a b : ParsedLocationBlock} (h : LocationReordered a b) (ha : ValidLocation a) :
    ValidLocation b where
  path := h.apiPath ▸ ha.path
  single := (kinds_perm h.directives).mp ha.single
  root := sets_perm h.directives ▸ ha.root

theorem disjoint_perm {a b : List Bytes} (h : a.Perm b) : Disjoint a ↔ Disjoint b :=
  h.pairwise_iff fun hab => ⟨hab.2,hab.1⟩

theorem locationReordered_paths {a b : List ParsedLocationBlock} (h : List.Forall₂ LocationReordered a b) :
    a.map (·.apiPath) = b.map (·.apiPath) := by
  induction h with
  | nil => rfl
  | cons h _ ih => rw [List.map_cons,List.map_cons,ih,h.apiPath]

theorem locationReordered_valid {a b : List ParsedLocationBlock} (h : List.Forall₂ LocationReordered a b)
    (ha : ∀ location ∈ a, ValidLocation location) : ∀ location ∈ b, ValidLocation location := by
  induction h with
  | nil => exact ha
  | cons h _ ih =>
    rw [List.forall_mem_cons] at ha ⊢
    exact ⟨h.valid ha.1,ih ha.2⟩

/-- A valid configuration stays valid in any order of its directives and locations. -/
theorem ValidConfiguration.reordered {a b : ParsedConfiguration} (h : Reordered a b) (ha : ValidConfiguration a) :
    ValidConfiguration b := by
  obtain ⟨between,hperm,hbetween⟩ := h.locations
  constructor
  · exact ha.server.perm h.directives
  · intro hempty
    rw [hempty,List.forall₂_nil_right_iff] at hbetween
    rw [hbetween] at hperm
    exact ha.nonempty hperm.eq_nil
  · apply locationReordered_valid hbetween
    intro location hmem
    exact ha.locations location (hperm.mem_iff.mpr hmem)
  · rw [← locationReordered_paths hbetween]
    exact (disjoint_perm (hperm.map _)).mp ha.disjoint

theorem LocationReordered.symm {a b : ParsedLocationBlock} (h : LocationReordered a b) : LocationReordered b a :=
  ⟨h.apiPath.symm,h.directives.symm⟩

theorem Reordered.symm {a b : ParsedConfiguration} (h : Reordered a b) : Reordered b a := by
  obtain ⟨between,hperm,hbetween⟩ := h.locations
  obtain ⟨back,hback,hperm'⟩ := List.perm_comp_forall₂ hperm hbetween
  exact ⟨h.directives.symm,back,hperm'.symm,hback.flip.imp fun _ _ h => h.symm⟩

end SpareNode.Configuration
