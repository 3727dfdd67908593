import SpareNode.Configuration.ValidatorAcceptance

/-! # Locations that the validator accepts

The rules for the location blocks, and with them the whole validator: it accepts the valid configurations,
reports their settings and otherwise lists errors by their places.
-/
namespace SpareNode.Configuration
open KeyedWalk

theorem ParsedLocationDirective.scalar_path {directive : ParsedLocationDirective} (h : directive.kind = .path) :
    directive.value.scalar = .string directive.value.scalar.text :=
  ParsedConfigScalar.eq_string (directive.typed.trans (by rw [h]; rfl))

theorem ParsedLocationDirective.scalar_permission {directive : ParsedLocationDirective} (h : directive.kind ≠ .path) :
    directive.value.scalar = .boolean directive.value.scalar.flag := by
  refine ParsedConfigScalar.eq_boolean (directive.typed.trans ?_)
  cases hkind : directive.kind <;> first | rfl | exact absurd hkind h

theorem ParsedLocationBlock.mem_given {location : ParsedLocationBlock} {kind : LocationDirectiveKind}
    {value : ParsedConfigValue} : (kind,value) ∈ location.given ↔
      ∃ directive ∈ location.directives, directive.kind = kind ∧ directive.value = value := by
  simp only [ParsedLocationBlock.given,List.mem_map,Prod.mk.injEq]

theorem ParsedLocationBlock.single_iff {location : ParsedLocationBlock} :
    (location.given.map (·.1)).Nodup ↔ (location.directives.map (·.kind)).Nodup := by
  rw [ParsedLocationBlock.given,List.map_map]
  rfl

namespace ValidationState

def recordLocation (x : LocationSettings × Option ParsedLocationDirective) (directive : ParsedLocationDirective) :
    LocationSettings × Option ParsedLocationDirective :=
  match directive.kind with
  | .path => (x.1,some directive)
  | .readPermission => ({ x.1 with allowRead := directive.value.scalar.flag },x.2)
  | .writePermission => ({ x.1 with allowWrite := directive.value.scalar.flag },x.2)
  | .deletePermission => ({ x.1 with allowDelete := directive.value.scalar.flag },x.2)

/-- The settings and the path directive before the first directive. -/
def startLocation (location : ParsedLocationBlock) : LocationSettings × Option ParsedLocationDirective :=
  ({ apiPath := location.apiPath },none)

def recordedLocation (location : ParsedLocationBlock) : LocationSettings × Option ParsedLocationDirective :=
  location.directives.foldl recordLocation (startLocation location)

/-- A step over a directive of a new kind reports nothing. -/
def stepLocation (x : ValidationState × LocationSettings × Option ParsedLocationDirective)
    (directive : ParsedLocationDirective) : ValidationState × LocationSettings × Option ParsedLocationDirective :=
  (x.1,recordLocation x.2 directive)

/-- A step over a directive of a repeated kind reports it. -/
def repeatLocation (location : ParsedLocationBlock)
    (x : ValidationState × LocationSettings × Option ParsedLocationDirective) (directive : ParsedLocationDirective) :
    ValidationState × LocationSettings × Option ParsedLocationDirective :=
  (x.1.addError { code := .duplicateLocationDirective,location := directive.location,
                  locationDirective := some directive.kind,locationPath := some location.apiPath },x.2)

theorem walkLocationDirectives_eq_walk (location : ParsedLocationBlock) (directives : List ParsedLocationDirective)
    (encountered : List LocationDirectiveKind) (s : ValidationState) (settings : LocationSettings)
    (path : Option ParsedLocationDirective) :
    walkLocationDirectives location directives encountered s settings path =
      walk (·.kind) stepLocation (repeatLocation location) directives encountered (s,settings,path) := by
  induction directives generalizing encountered s settings path with
  | nil => rfl
  | cons directive rest ih =>
    rw [walkLocationDirectives,walk]
    split
    · rw [ih]
      rfl
    · cases hkind : directive.kind <;> simp only [stepLocation,recordLocation,hkind,ih]

theorem walkLocationDirectives_clean (location : ParsedLocationBlock) (s : ValidationState)
    (settings : LocationSettings) (path : Option ParsedLocationDirective) :
    (walkLocationDirectives location location.directives [] s settings path).1.Clean ↔
      s.Clean ∧ (location.directives.map (·.kind)).Nodup := by
  have hstep : ∀ x directive, (stepLocation x directive).1.Clean ↔ x.1.Clean ∧ True :=
    fun _ _ => (and_iff_left trivial).symm
  have hrepeated : ∀ x directive, ¬(repeatLocation location x directive).1.Clean :=
    fun _ _ => not_clean_addError _
  have hwalk : (walk (·.kind) stepLocation (repeatLocation location) location.directives [] (s,settings,path)).1.Clean ↔
      s.Clean ∧ Single (·.kind) location.directives [] ∧ ∀ directive ∈ location.directives, True :=
    walk_clean_iff (fun x => x.1.Clean) (fun _ => True) hstep hrepeated (s,settings,path)
  rw [walkLocationDirectives_eq_walk,hwalk,single_start]
  exact and_congr_right' (and_iff_left fun _ _ => trivial)

theorem foldl_stepLocation (directives : List ParsedLocationDirective) (s : ValidationState)
    (x : LocationSettings × Option ParsedLocationDirective) :
    directives.foldl stepLocation (s,x) = (s,directives.foldl recordLocation x) := by
  induction directives generalizing x with
  | nil => rfl
  | cons directive rest ih =>
    rw [List.foldl_cons,List.foldl_cons]
    exact ih (recordLocation x directive)

theorem walkLocationDirectives_record {location : ParsedLocationBlock}
    (hsingle : (location.directives.map (·.kind)).Nodup) (s : ValidationState) :
    walkLocationDirectives location location.directives [] s { apiPath := location.apiPath } none =
      (s,recordedLocation location) := by
  rw [walkLocationDirectives_eq_walk,walk_eq_foldl (single_start.mpr hsingle),foldl_stepLocation]
  rfl

variable {location : ParsedLocationBlock} {s : ValidationState}

theorem recordedLocation_path (hsingle : (location.directives.map (·.kind)).Nodup) (directive : ParsedLocationDirective) :
    (recordedLocation location).2 = some directive ↔ directive ∈ location.directives ∧ directive.kind = .path := by
  have hset : ∀ x directive, True → directive.kind = .path → (recordLocation x directive).2 = some directive := by
    intro x directive _ hkind
    simp only [recordLocation,hkind]
  have hkeep : ∀ x directive, directive.kind ≠ .path → (recordLocation x directive).2 = x.2 := by
    rintro x ⟨kind,_,_,_⟩ hkind
    cases kind <;> first | rfl | exact absurd rfl hkind
  rcases foldl_field Prod.snd (fun directive path => path = some directive) hset hkeep hsingle (fun _ _ => trivial)
    (startLocation location) with ⟨other,hmem,hkind,hpath⟩ | ⟨hpath,hnone⟩
  · rw [recordedLocation,hpath,Option.some.injEq]
    constructor
    · rintro rfl
      exact ⟨hmem,hkind⟩
    · rintro ⟨hmem',hkind'⟩
      exact List.inj_on_of_nodup_map hsingle hmem hmem' (hkind.trans hkind'.symm)
  · rw [recordedLocation,hpath]
    constructor
    · rintro ⟨⟩
    · rintro ⟨hmem,hkind⟩
      exact absurd hkind (hnone directive hmem)

/-- A permission is what its directive grants, or its default. -/
theorem recordedLocation_permission (hsingle : (location.directives.map (·.kind)).Nodup)
    (field : LocationSettings → Bool) (kind : LocationDirectiveKind) (hpermission : kind ≠ .path)
    (hset : ∀ x directive, directive.kind = kind → field (recordLocation x directive).1 = directive.value.scalar.flag)
    (hkeep : ∀ x directive, directive.kind ≠ kind → field (recordLocation x directive).1 = field x.1) :
    Effective location.given kind .boolean (field { apiPath := location.apiPath })
      (field (recordedLocation location).1) := by
  rcases foldl_field (fun x => field x.1) (fun directive flag => flag = directive.value.scalar.flag)
    (fun x directive _ hkind => hset x directive hkind) hkeep hsingle (fun _ _ => trivial)
    (startLocation location) with ⟨directive,hmem,hkind,hflag⟩ | ⟨hflag,hnone⟩
  · refine Or.inl ⟨directive.value,ParsedLocationBlock.mem_given.mpr ⟨directive,hmem,hkind,rfl⟩,?_⟩
    rw [recordedLocation,hflag]
    exact directive.scalar_permission (hkind ▸ hpermission)
  · refine Or.inr ⟨hflag,?_⟩
    rintro scalar ⟨value,hmem,-⟩
    obtain ⟨directive,hmem',hkind,-⟩ := ParsedLocationBlock.mem_given.mp hmem
    exact hnone directive hmem' hkind

theorem recordedLocation_apiPath : (recordedLocation location).1.apiPath = location.apiPath := by
  refine foldl_keeps (fun x => LocationSettings.apiPath x.1) ?_ (startLocation location)
  rintro x ⟨kind,_,_,_⟩
  cases kind <;> rfl

/-- The root of a location: one path that is not empty. -/
theorem validateLocationRoot_clean (hsingle : (location.directives.map (·.kind)).Nodup) :
    (s.validateLocationRoot location (recordedLocation location).2).1.Clean ↔
      s.Clean ∧ ∃ text, Sets location.given .path (.string text) ∧ text ≠ [] := by
  unfold validateLocationRoot
  split
  · rename_i hnone
    refine ⟨fun h => absurd h (not_clean_addError _),?_⟩
    rintro ⟨-,text,⟨value,hmem,-⟩,-⟩
    obtain ⟨directive,hmem',hkind,-⟩ := ParsedLocationBlock.mem_given.mp hmem
    rw [(recordedLocation_path hsingle directive).mpr ⟨hmem',hkind⟩] at hnone
    cases hnone
  · rename_i directive hsome
    obtain ⟨hmem,hkind⟩ := (recordedLocation_path hsingle directive).mp hsome
    have hsets : Sets location.given .path (.string directive.value.scalar.text) :=
      ⟨_,ParsedLocationBlock.mem_given.mpr ⟨directive,hmem,hkind,rfl⟩,directive.scalar_path hkind⟩
    dsimp only
    split
    · rename_i hempty
      refine ⟨fun h => absurd h (not_clean_addError _),?_⟩
      rintro ⟨-,text,htext,hne⟩
      have := sets_unique (ParsedLocationBlock.single_iff.mpr hsingle) hsets htext
      rw [← ParsedConfigScalar.string.inj this] at hne
      exact absurd (List.isEmpty_iff.mp hempty) hne
    · rename_i hne
      exact (and_iff_left ⟨_,hsets,fun h => hne (List.isEmpty_iff.mpr h)⟩).symm

theorem validateLocationRoot_keeps {path : Option ParsedLocationDirective}
    (h : (s.validateLocationRoot location path).1.Clean) : s.Clean := by
  unfold validateLocationRoot at h
  split at h
  · exact absurd h (not_clean_addError _)
  · dsimp only at h
    split at h
    · exact absurd h (not_clean_addError _)
    · exact h

theorem validateLocationDirectives_root : (s.validateLocationDirectives location).Clean ↔
    ((walkLocationDirectives location location.directives [] s { apiPath := location.apiPath } none).1.validateLocationRoot
      location (walkLocationDirectives location location.directives [] s
        { apiPath := location.apiPath } none).2.2).1.Clean := by
  unfold validateLocationDirectives
  dsimp only
  split <;> rename_i hresult <;> rw [hresult]
  rfl

theorem validateLocationDirectives_clean : (s.validateLocationDirectives location).Clean ↔
    s.Clean ∧ (location.given.map (·.1)).Nodup ∧ ∃ text, Sets location.given .path (.string text) ∧ text ≠ [] := by
  rw [ParsedLocationBlock.single_iff,validateLocationDirectives_root]
  by_cases hsingle : (location.directives.map (·.kind)).Nodup
  · rw [walkLocationDirectives_record hsingle,validateLocationRoot_clean hsingle,and_iff_right hsingle]
  · constructor
    · intro h
      exact absurd ((walkLocationDirectives_clean location s _ _).mp (validateLocationRoot_keeps h)).2 hsingle
    · exact fun h => absurd h.2.1 hsingle

/-- A valid location goes into the server with the settings that it reflects. -/
theorem validateLocationDirectives_passes (h : ValidLocation location) : ∃ settings, LocationReflects location settings ∧
    ∀ s : ValidationState, s.validateLocationDirectives location =
      { s with server := { s.server with locations := s.server.locations ++ [settings] } } := by
  have hsingle := ParsedLocationBlock.single_iff.mp h.single
  obtain ⟨text,hsets,hne⟩ := h.root
  obtain ⟨value,hmem,hscalar⟩ := hsets
  obtain ⟨directive,hmem',hkind,rfl⟩ := ParsedLocationBlock.mem_given.mp hmem
  have hpath := (recordedLocation_path hsingle directive).mpr ⟨hmem',hkind⟩
  refine ⟨{ (recordedLocation location).1 with root := ⟨text,directive.value.location⟩ },?_,?_⟩
  · constructor
    · exact recordedLocation_apiPath
    · rw [← hscalar]
      exact hmem
    · exact recordedLocation_permission hsingle LocationSettings.allowRead .readPermission nofun
        (fun x directive hkind => by simp only [recordLocation,hkind])
        (by rintro x ⟨kind,_,_,_⟩ hkind; cases kind <;> first | rfl | exact absurd rfl hkind)
    · exact recordedLocation_permission hsingle LocationSettings.allowWrite .writePermission nofun
        (fun x directive hkind => by simp only [recordLocation,hkind])
        (by rintro x ⟨kind,_,_,_⟩ hkind; cases kind <;> first | rfl | exact absurd rfl hkind)
    · exact recordedLocation_permission hsingle LocationSettings.allowDelete .deletePermission nofun
        (fun x directive hkind => by simp only [recordLocation,hkind])
        (by rintro x ⟨kind,_,_,_⟩ hkind; cases kind <;> first | rfl | exact absurd rfl hkind)
  · intro s
    have htext : directive.value.scalar.text = text := by
      rw [hscalar]
      rfl
    have hroot : text.isEmpty = false := by
      rw [List.isEmpty_eq_false_iff]
      exact hne
    simp only [validateLocationDirectives,walkLocationDirectives_record hsingle,hpath,validateLocationRoot,htext,hroot,
      Bool.false_eq_true,if_false]

theorem validateLocationIdentity_clean {paths : List Bytes} :
    (s.validateLocationIdentity location paths).1.Clean ↔ s.Clean ∧ LocationPath location.apiPath ∧
      ∀ path ∈ paths, ¬Nested path location.apiPath ∧ ¬Nested location.apiPath path := by
  have hconflict : paths.any (fun path => locationPathsConflict path location.apiPath) = false ↔
      ∀ path ∈ paths, ¬Nested path location.apiPath ∧ ¬Nested location.apiPath path := by
    simp only [List.any_eq_false,locationPathsConflict,Bool.or_eq_true,not_or,locationPathContains_iff]
  rw [← isValidLocationPath_iff,← hconflict]
  unfold validateLocationIdentity
  cases isValidLocationPath location.apiPath with
  | false => exact ⟨fun h => absurd h (not_clean_addError _),fun h => absurd h.2.1 (by decide)⟩
  | true =>
    cases paths.any (fun path => locationPathsConflict path location.apiPath) with
    | true => exact ⟨fun h => absurd h (not_clean_addError _),fun h => absurd h.2.2 (by decide)⟩
    | false => exact (and_iff_left ⟨rfl,rfl⟩).symm

/-- A path that passes is kept for the later locations. -/
theorem validateLocationIdentity_passes {paths : List Bytes} (h : (s.validateLocationIdentity location paths).1.Clean) :
    s.validateLocationIdentity location paths = (s,paths ++ [location.apiPath]) := by
  unfold validateLocationIdentity at h ⊢
  split_ifs at h ⊢
  · exact absurd h (not_clean_addError _)
  · exact absurd h (not_clean_addError _)
  · rfl

theorem walkLocations_clean (locations : List ParsedLocationBlock) (paths : List Bytes) (s : ValidationState) :
    (walkLocations locations paths s).Clean ↔ s.Clean ∧ (∀ location ∈ locations, ValidLocation location) ∧
      Disjoint (locations.map (·.apiPath)) ∧
        ∀ path ∈ paths, ∀ location ∈ locations, ¬Nested path location.apiPath ∧ ¬Nested location.apiPath path := by
  induction locations generalizing paths s with
  | nil => simp [walkLocations,Disjoint]
  | cons location rest ih =>
    rw [walkLocations]
    dsimp only
    rw [ih,validateLocationDirectives_clean]
    constructor
    · rintro ⟨⟨hidentity,hsingle,hroot⟩,hvalid,hdisjoint,hpaths⟩
      obtain ⟨hclean,hpath,hothers⟩ := validateLocationIdentity_clean.mp hidentity
      rw [validateLocationIdentity_passes hidentity] at hpaths
      refine ⟨hclean,List.forall_mem_cons.mpr ⟨⟨hpath,hsingle,hroot⟩,hvalid⟩,?_,?_⟩
      · rw [List.map_cons,Disjoint,List.pairwise_cons]
        refine ⟨?_,hdisjoint⟩
        intro path hmem
        obtain ⟨other,hother,rfl⟩ := List.mem_map.mp hmem
        exact hpaths _ (List.mem_append_right _ List.mem_cons_self) other hother
      · intro path hmem
        exact List.forall_mem_cons.mpr ⟨hothers path hmem,hpaths path (List.mem_append_left _ hmem)⟩
    · rintro ⟨hclean,hvalid,hdisjoint,hpaths⟩
      rw [List.forall_mem_cons] at hvalid
      rw [List.map_cons,Disjoint,List.pairwise_cons] at hdisjoint
      have hidentity : (s.validateLocationIdentity location paths).1.Clean :=
        validateLocationIdentity_clean.mpr ⟨hclean,hvalid.1.path,fun path hmem => hpaths path hmem _ List.mem_cons_self⟩
      refine ⟨⟨hidentity,hvalid.1.single,hvalid.1.root⟩,hvalid.2,hdisjoint.2,?_⟩
      rw [validateLocationIdentity_passes hidentity]
      intro path hmem other hother
      rcases List.mem_append.mp hmem with hold | hnew
      · exact hpaths path hold other (List.mem_cons_of_mem _ hother)
      · rw [List.mem_singleton.mp hnew]
        exact hdisjoint.1 _ (List.mem_map_of_mem hother)

theorem walkLocations_passes (locations : List ParsedLocationBlock) (paths : List Bytes) (s : ValidationState)
    (h : (walkLocations locations paths s).Clean) : ∃ settings, List.Forall₂ LocationReflects locations settings ∧
      walkLocations locations paths s =
        { s with server := { s.server with locations := s.server.locations ++ settings } } := by
  induction locations generalizing paths s with
  | nil => exact ⟨[],.nil,by rw [walkLocations,List.append_nil]⟩
  | cons location rest ih =>
    have hvalid := ((walkLocations_clean _ _ _).mp h).2.1 location List.mem_cons_self
    rw [walkLocations] at h ⊢
    dsimp only at h ⊢
    have hidentity := (validateLocationDirectives_clean.mp ((walkLocations_clean _ _ _).mp h).1).1
    obtain ⟨first,hfirst,hstep⟩ := validateLocationDirectives_passes hvalid
    obtain ⟨settings,hsettings,hwalk⟩ := ih _ _ h
    refine ⟨first :: settings,.cons hfirst hsettings,?_⟩
    rw [hwalk,hstep,validateLocationIdentity_passes hidentity]
    simp only [List.append_assoc,List.singleton_append]

end ValidationState

open ValidationState

variable {configuration : ParsedConfiguration}

theorem validateLocations_clean {s : ValidationState} {server : ParsedServerBlock} :
    (s.validateLocations server).Clean ↔ s.Clean ∧ server.locations ≠ [] ∧
      (∀ location ∈ server.locations, ValidLocation location) ∧ Disjoint (server.locations.map (·.apiPath)) := by
  unfold validateLocations
  split
  · rename_i hempty
    exact ⟨fun h => absurd h (not_clean_addError _),fun h => absurd (List.isEmpty_iff.mp hempty) h.2.1⟩
  · rename_i hne
    rw [walkLocations_clean]
    simp only [List.isEmpty_iff] at hne
    simp [hne]

theorem validate_clean : (((start configuration.server).validateServerDirectives
    configuration.server).validateLocations configuration.server).Clean ↔ ValidConfiguration configuration := by
  rw [validateLocations_clean,validateServerDirectives_clean]
  exact ⟨fun h => ⟨h.1,h.2.1,h.2.2.1,h.2.2.2⟩,fun h => ⟨h.server,h.nonempty,h.locations,h.disjoint⟩⟩

theorem mergeSort_eq_nil {α : Type*} {le : α → α → Bool} {l : List α} : l.mergeSort le = [] ↔ l = [] := by
  rw [← List.length_eq_zero_iff,List.length_mergeSort,List.length_eq_zero_iff]

theorem validated_clean : (validated configuration).Clean ↔ ValidConfiguration configuration := by
  rw [← validate_clean]
  exact mergeSort_eq_nil

theorem validated_sorted :
    (validated configuration).errors.Pairwise (fun a b => a.location.byteOffset ≤ b.location.byteOffset) := by
  refine (List.pairwise_mergeSort ?_ ?_ _).imp (fun h => decide_eq_true_eq.mp h)
  · intro a b c hab hbc
    rw [decide_eq_true_eq] at hab hbc ⊢
    exact hab.trans hbc
  · intro a b
    rw [Bool.or_eq_true,decide_eq_true_eq,decide_eq_true_eq]
    exact le_total a.location.byteOffset b.location.byteOffset

/-- On a valid configuration the server holds the settings that it reflects. -/
theorem validated_reflects (h : ValidConfiguration configuration) :
    Reflects configuration.server (validated configuration).server := by
  have hclean := validate_clean.mpr h
  have hserver : (validated configuration).server = (((start configuration.server).validateServerDirectives
    configuration.server).validateLocations configuration.server).server := rfl
  rw [validateLocations,if_neg (by simpa using h.nonempty)] at hclean
  obtain ⟨settings,hsettings,hwalk⟩ := walkLocations_passes _ _ _ hclean
  rw [hserver,validateLocations,if_neg (by simpa using h.nonempty),hwalk,validateServerDirectives_passes h.server,
    recorded_locations,List.nil_append]
  exact (validServer_iff.mp h.server).1.reflects hsettings

theorem validate_accepts (configuration : ParsedConfiguration) :
    (∃ validated, validate configuration = .ok validated) ↔ ValidConfiguration configuration := by
  rw [← validated_clean,Clean,← List.isEmpty_iff,validate]
  split
  · rename_i h
    exact ⟨fun _ => h,fun _ => ⟨_,rfl⟩⟩
  · rename_i h
    refine ⟨?_,fun h' => absurd h' h⟩
    rintro ⟨validated,haccepted⟩
    cases haccepted

/-- The validator accepts the valid configurations, whatever the order of their directives, with the settings
that they reflect, and otherwise lists errors by their places. -/
theorem validate_exact (configuration : ParsedConfiguration) :
    ((∃ validated, validate configuration = .ok validated) ↔ ValidConfiguration configuration) ∧
    (∀ validated, validate configuration = .ok validated → validated.parsed = configuration ∧
      ∃ settings, validated.settings.servers = [settings] ∧ Reflects configuration.server settings) ∧
    (∀ errors, validate configuration = .error errors →
      errors ≠ [] ∧ errors.Pairwise (fun a b => a.location.byteOffset ≤ b.location.byteOffset)) ∧
    ∀ other, Reordered configuration other →
      ((∃ validated, validate configuration = .ok validated) ↔ ∃ validated, validate other = .ok validated) := by
  refine ⟨validate_accepts configuration,?_,?_,?_⟩
  · intro accepted h
    have hvalid := (validate_accepts configuration).mp ⟨accepted,h⟩
    have hreflects := validated_reflects hvalid
    rw [validate] at h
    split at h
    · obtain rfl := Except.ok.inj h
      exact ⟨rfl,_,rfl,hreflects⟩
    · cases h
  · intro errors h
    rw [validate] at h
    split at h
    · cases h
    · rename_i hne
      obtain rfl := Except.error.inj h
      exact ⟨fun hempty => hne (List.isEmpty_iff.mpr hempty),validated_sorted⟩
  · intro other h
    rw [validate_accepts,validate_accepts]
    exact ⟨fun hvalid => hvalid.reordered h,fun hvalid => hvalid.reordered h.symm⟩

end SpareNode.Configuration
