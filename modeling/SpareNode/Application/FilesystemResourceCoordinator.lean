import SpareNode.Filesystem.SafePath
import SpareNode.Foundation.Interruption

/-! # The filesystem resource coordinator

A registry of claims on paths, grouped by the acquisition that made them. `acquire_all` checks
the capacity under the lock, resolves its requests without it, and takes the lock again for
the section that registers the claims or finds a conflict. The three sections are functions
of their own, since other calls may run between them. `std::size_t` and the identifiers are
64-bit numbers.
-/
namespace SpareNode.Application
open LexicalPath FileTree Filesystem Concurrency

inductive FilesystemResourceAccessMode where
  | sharedRead | exclusiveMutation
deriving DecidableEq, Repr

/-- A request whose root may be a null pointer. -/
structure FilesystemResourceAccessRequest where
  root : Option SharedRoot
  requestedPath : Bytes
  mode : FilesystemResourceAccessMode

inductive FilesystemResourceAccessErrorCode where
  | invalidPath | conflict | cancelled | deadlineExceeded | capacityExceeded | resourceAllocationFailed
deriving DecidableEq, Repr

structure FilesystemResourceAccessError where
  code : FilesystemResourceAccessErrorCode
  pathError : Option SafePathError
deriving DecidableEq, Repr

structure ResourceClaim where
  root : Path
  components : List Name
  mode : FilesystemResourceAccessMode
deriving DecidableEq

structure ActiveClaimSet where
  identifier : ℕ
  claims : List ResourceClaim
deriving DecidableEq

def interruption (moment : Moment) (deadline : Option ℤ) : Option FilesystemResourceAccessError :=
  match interruptionStatus moment deadline with
  | .cancelled => some ⟨.cancelled,none⟩
  | .deadlineExceeded => some ⟨.deadlineExceeded,none⟩
  | .none => none

/-- Roots are canonical and components single names, so equal paths are equal texts. -/
def isPrefix (first path : List Name) : Bool := first.isPrefixOf path

def overlaps (left right : ResourceClaim) : Bool :=
  left.root = right.root &&
    (isPrefix left.components right.components || isPrefix right.components left.components)

def conflicts (left right : ResourceClaim) : Bool :=
  overlaps left right && (left.mode = .exclusiveMutation || right.mode = .exclusiveMutation)

def claimSetConflicts (active : ActiveClaimSet) (requested : List ResourceClaim) : Bool :=
  active.claims.any (fun existing => requested.any (fun claim => conflicts existing claim))

def conflictsWithActive (active : List ActiveClaimSet) (requested : List ResourceClaim) : Bool :=
  active.any (fun set => claimSetConflicts set requested)

def makeClaim (fs : Tree) (request : FilesystemResourceAccessRequest) :
    Except FilesystemResourceAccessError ResourceClaim :=
  match request.root with
  | none => .error ⟨.invalidPath,some ⟨.resolutionFailed,[]⟩⟩
  | some root =>
    match SafePath.resolve fs root request.requestedPath with
    | .error e => .error ⟨.invalidPath,some e⟩
    | .ok safe =>
      .ok ⟨root.path,(safe.path.lexicallyRelative root.path).elements.filter
        (fun component => !component.isEmpty && component ≠ dot),request.mode⟩

/-- The loop over the requests; each sees the tree as it is when it is resolved. -/
def makeClaims : (ℕ → Tree) → List FilesystemResourceAccessRequest →
    Except FilesystemResourceAccessError (List ResourceClaim)
  | _,[] => .ok []
  | trees,request :: rest =>
    match makeClaim (trees 0) request with
    | .error e => .error e
    | .ok claim =>
      match makeClaims (fun i => trees (i + 1)) rest with
      | .error e => .error e
      | .ok claims => .ok (claim :: claims)

/-- `path::generic_u8string`. -/
def genericText (path : Path) : Bytes :=
  (if path.rooted then [separator] else []) ++ [separator].intercalate (path.dirs ++ [path.filename])

def claimLess (left right : ResourceClaim) : Bool :=
  if genericText left.root ≠ genericText right.root then genericText left.root < genericText right.root
  else left.components < right.components

/-- `std::ranges::sort(claims, claim_less)`. -/
def sortClaims (claims : List ResourceClaim) : List ResourceClaim :=
  claims.mergeSort (fun left right => !claimLess right left)

structure FilesystemResourceCoordinatorState where
  active : List ActiveClaimSet
  activeClaimCount : ℕ
  nextIdentifier : ℕ
deriving DecidableEq

namespace FilesystemResourceCoordinator

def maximumActiveClaims : ℕ := 4096

def create : FilesystemResourceCoordinatorState := ⟨[],0,1⟩

/-- `maximum_active_claims - active_claim_count` in `std::size_t`. -/
def remainingClaims (st : FilesystemResourceCoordinatorState) : ℕ :=
  (maximumActiveClaims + 2 ^ 64 - st.activeClaimCount % 2 ^ 64) % 2 ^ 64

/-- `acquire_all` up to the early capacity check. -/
def earlyCheck (moment : Moment) (deadline : Option ℤ) (requests : List FilesystemResourceAccessRequest)
    (st : FilesystemResourceCoordinatorState) : Except FilesystemResourceAccessError Unit :=
  match interruption moment deadline with
  | some e => .error e
  | none =>
    if requests = [] then .error ⟨.invalidPath,none⟩
    else if maximumActiveClaims < requests.length then .error ⟨.capacityExceeded,none⟩
    else if remainingClaims st < requests.length then .error ⟨.capacityExceeded,none⟩
    else .ok ()

/-- `acquire_all` between its two locked sections; memory may run out on the way. -/
def prepare (allocates : Bool) (trees : ℕ → Tree) (moment : Moment) (deadline : Option ℤ)
    (requests : List FilesystemResourceAccessRequest) :
    Except FilesystemResourceAccessError (List ResourceClaim) :=
  if !allocates then .error ⟨.resourceAllocationFailed,none⟩
  else
    match makeClaims trees requests with
    | .error e => .error e
    | .ok claims =>
      match interruption moment deadline with
      | some e => .error e
      | none => .ok (sortClaims claims)

/-- The section of `acquire_all` that registers the claims; the identifier is drawn before
the registry may have to grow. -/
def register (allocates : Bool) (moment : Moment) (deadline : Option ℤ) (claims : List ResourceClaim)
    (st : FilesystemResourceCoordinatorState) :
    Except FilesystemResourceAccessError ℕ × FilesystemResourceCoordinatorState :=
  match interruption moment deadline with
  | some e => (.error e,st)
  | none =>
    if remainingClaims st < claims.length then (.error ⟨.capacityExceeded,none⟩,st)
    else if conflictsWithActive st.active claims then (.error ⟨.conflict,none⟩,st)
    else if !allocates then
      (.error ⟨.resourceAllocationFailed,none⟩,
        { st with nextIdentifier := (st.nextIdentifier + 1) % 2 ^ 64 })
    else
      (.ok st.nextIdentifier,
        ⟨st.active ++ [⟨st.nextIdentifier,claims⟩],
          (st.activeClaimCount + claims.length) % 2 ^ 64,(st.nextIdentifier + 1) % 2 ^ 64⟩)

/-- `acquire_all` as one call: the registry it meets at the early check, and the one it meets
when it takes the lock again. -/
def acquireAll (earlyMoment middleMoment lateMoment : Moment) (preparing registering : Bool)
    (trees : ℕ → Tree) (deadline : Option ℤ) (requests : List FilesystemResourceAccessRequest)
    (early late : FilesystemResourceCoordinatorState) :
    Except FilesystemResourceAccessError ℕ × FilesystemResourceCoordinatorState :=
  match earlyCheck earlyMoment deadline requests early with
  | .error e => (.error e,late)
  | .ok () =>
    match prepare preparing trees middleMoment deadline requests with
    | .error e => (.error e,late)
    | .ok claims => register registering lateMoment deadline claims late

/-- The locked section of `FilesystemResourceLease::release`. -/
def release (identifier : ℕ) (st : FilesystemResourceCoordinatorState) :
    FilesystemResourceCoordinatorState :=
  match st.active.find? (fun set => set.identifier = identifier) with
  | none => st
  | some set => { st with
      active := st.active.eraseP (fun set => set.identifier = identifier)
      activeClaimCount := (st.activeClaimCount + 2 ^ 64 - set.claims.length % 2 ^ 64) % 2 ^ 64 }

variable {st st' : FilesystemResourceCoordinatorState} {drawn identifier : ℕ}
variable {claims : List ResourceClaim} {moment : Moment} {deadline : Option ℤ} {allocates : Bool}

theorem conflicts_comm (left right : ResourceClaim) : conflicts left right = conflicts right left := by
  unfold conflicts overlaps
  rw [Bool.or_comm (isPrefix _ _),Bool.or_comm (decide (left.mode = _)),
    decide_eq_decide.mpr (eq_comm (a := left.root) (b := right.root))]

/-- No claim of one set conflicts with a claim of the other. -/
def Compatible (left right : ActiveClaimSet) : Prop :=
  ∀ c ∈ left.claims, ∀ d ∈ right.claims, conflicts c d = false

theorem Compatible.symm {left right : ActiveClaimSet} (h : Compatible left right) :
    Compatible right left := by
  intro c hc d hd
  rw [conflicts_comm]
  exact h d hd c hc

theorem conflictsWithActive_eq_false (active : List ActiveClaimSet) (claims : List ResourceClaim) :
    conflictsWithActive active claims = false ↔
      ∀ set ∈ active, ∀ c ∈ set.claims, ∀ d ∈ claims, conflicts c d = false := by
  simp only [conflictsWithActive,claimSetConflicts,List.any_eq_false,Bool.not_eq_true]

/-- The registry after a number of identifiers have been drawn. -/
structure Valid (drawn : ℕ) (st : FilesystemResourceCoordinatorState) : Prop where
  next : st.nextIdentifier = (drawn + 1) % 2 ^ 64
  identifiers : ∀ set ∈ st.active, 0 < set.identifier ∧ set.identifier ≤ drawn
  distinct : (st.active.map ActiveClaimSet.identifier).Nodup
  counted : st.activeClaimCount = (st.active.map (fun set => set.claims.length)).sum
  bounded : st.activeClaimCount ≤ maximumActiveClaims
  compatible : st.active.Pairwise Compatible

theorem create_valid : Valid 0 create :=
  ⟨rfl,by simp [create],by simp [create],rfl,by simp [create],by simp [create]⟩

theorem Valid.remainingClaims (h : Valid drawn st) :
    remainingClaims st = maximumActiveClaims - st.activeClaimCount := by
  have hb := h.bounded
  unfold FilesystemResourceCoordinator.remainingClaims maximumActiveClaims at *
  omega

theorem register_cases {result : Except FilesystemResourceAccessError ℕ}
    (h : register allocates moment deadline claims st = (result,st')) :
    (∃ e, result = .error e ∧ st'.active = st.active ∧ st'.activeClaimCount = st.activeClaimCount ∧
      (e.code ≠ .resourceAllocationFailed ∧ st' = st ∨
        e.code = .resourceAllocationFailed ∧ st'.nextIdentifier = (st.nextIdentifier + 1) % 2 ^ 64)) ∨
    result = .ok st.nextIdentifier ∧ claims.length ≤ remainingClaims st ∧
      conflictsWithActive st.active claims = false ∧
      st' = ⟨st.active ++ [⟨st.nextIdentifier,claims⟩],
        (st.activeClaimCount + claims.length) % 2 ^ 64,(st.nextIdentifier + 1) % 2 ^ 64⟩ := by
  unfold register at h
  split at h
  · rename_i e he
    obtain ⟨rfl,rfl⟩ := Prod.mk.inj h
    refine Or.inl ⟨e,rfl,rfl,rfl,Or.inl ⟨?_,rfl⟩⟩
    unfold interruption at he
    split at he <;> cases he <;> simp
  · split at h
    · obtain ⟨rfl,rfl⟩ := Prod.mk.inj h
      exact Or.inl ⟨_,rfl,rfl,rfl,Or.inl ⟨by simp,rfl⟩⟩
    · rename_i hcapacity
      split at h
      · obtain ⟨rfl,rfl⟩ := Prod.mk.inj h
        exact Or.inl ⟨_,rfl,rfl,rfl,Or.inl ⟨by simp,rfl⟩⟩
      · rename_i hconflict
        split at h
        · obtain ⟨rfl,rfl⟩ := Prod.mk.inj h
          exact Or.inl ⟨_,rfl,rfl,rfl,Or.inr ⟨rfl,rfl⟩⟩
        · obtain ⟨rfl,rfl⟩ := Prod.mk.inj h
          exact Or.inr ⟨rfl,not_lt.mp hcapacity,by simpa using hconflict,rfl⟩

theorem Valid.wasted (h : Valid drawn st) (hactive : st'.active = st.active)
    (hcount : st'.activeClaimCount = st.activeClaimCount)
    (hnext : st'.nextIdentifier = (st.nextIdentifier + 1) % 2 ^ 64) : Valid (drawn + 1) st' := by
  refine ⟨?_,?_,by rw [hactive]; exact h.distinct,by rw [hactive,hcount]; exact h.counted,
    by rw [hcount]; exact h.bounded,by rw [hactive]; exact h.compatible⟩
  · rw [hnext,h.next]
    omega
  · intro set hset
    obtain ⟨hpos,hle⟩ := h.identifiers set (hactive ▸ hset)
    exact ⟨hpos,by omega⟩

/-- A registered set keeps the registry valid while identifiers have not run out. -/
theorem Valid.granted (h : Valid drawn st) (hdrawn : drawn + 1 < 2 ^ 64)
    (hlength : claims.length ≤ FilesystemResourceCoordinator.remainingClaims st)
    (hconflict : conflictsWithActive st.active claims = false) :
    Valid (drawn + 1) ⟨st.active ++ [⟨st.nextIdentifier,claims⟩],
      (st.activeClaimCount + claims.length) % 2 ^ 64,(st.nextIdentifier + 1) % 2 ^ 64⟩ := by
  have hnext : st.nextIdentifier = drawn + 1 := by rw [h.next,Nat.mod_eq_of_lt hdrawn]
  have hbounded := h.bounded
  rw [h.remainingClaims] at hlength
  have hsum : (st.activeClaimCount + claims.length) % 2 ^ 64 = st.activeClaimCount + claims.length := by
    unfold maximumActiveClaims at *
    omega
  refine ⟨?_,?_,?_,?_,?_,?_⟩
  · rw [hnext]
  · intro set hset
    rcases List.mem_append.mp hset with hset | hset
    · obtain ⟨hpos,hle⟩ := h.identifiers set hset
      exact ⟨hpos,by omega⟩
    · rw [List.mem_singleton.mp hset]
      exact ⟨by simp [hnext],by simp [hnext]⟩
  · rw [List.map_append,List.nodup_append]
    refine ⟨h.distinct,by simp,?_⟩
    intro a ha b hb
    obtain ⟨set,hset,rfl⟩ := List.mem_map.mp ha
    have hle := (h.identifiers set hset).2
    simp only [List.map_cons,List.map_nil,List.mem_singleton] at hb
    omega
  · rw [hsum,h.counted]
    simp
  · simp only [hsum]
    unfold maximumActiveClaims at *
    omega
  · rw [List.pairwise_append]
    refine ⟨h.compatible,by simp,?_⟩
    intro set hset other hother
    rw [List.mem_singleton.mp hother]
    exact (conflictsWithActive_eq_false _ _).mp hconflict set hset

theorem release_cases (identifier : ℕ) (st : FilesystemResourceCoordinatorState) :
    (FilesystemResourceCoordinator.release identifier st = st ∧
      ∀ set ∈ st.active, set.identifier ≠ identifier) ∨
    ∃ before set after, st.active = before ++ set :: after ∧ set.identifier = identifier ∧
      FilesystemResourceCoordinator.release identifier st = { st with
        active := before ++ after
        activeClaimCount := (st.activeClaimCount + 2 ^ 64 - set.claims.length % 2 ^ 64) % 2 ^ 64 } := by
  cases hfind : st.active.find? (fun set => set.identifier = identifier) with
  | none =>
    left
    refine ⟨by simp [release,hfind],?_⟩
    intro set hset
    simpa using List.find?_eq_none.mp hfind set hset
  | some set =>
    right
    obtain ⟨hid,before,after,hactive,hbefore⟩ := List.find?_eq_some_iff_append.mp hfind
    have hid : set.identifier = identifier := by simpa using hid
    refine ⟨before,set,after,hactive,hid,?_⟩
    have herase : st.active.eraseP (fun set => set.identifier = identifier) = before ++ after := by
      rw [hactive,List.eraseP_append_right _ (fun other hother => by simpa using hbefore other hother),
        List.eraseP_cons_of_pos (by simpa using hid)]
    simp [release,hfind,herase]

/-- Releasing an identifier removes its claim set and nothing else. -/
theorem Valid.release (h : Valid drawn st) (identifier : ℕ) :
    Valid drawn (release identifier st) ∧
      ∀ set, set ∈ (FilesystemResourceCoordinator.release identifier st).active ↔
        set ∈ st.active ∧ set.identifier ≠ identifier := by
  rcases release_cases identifier st with ⟨heq,habsent⟩ | ⟨before,set,after,hactive,hid,heq⟩
  · rw [heq]
    exact ⟨h,fun set => ⟨fun hset => ⟨hset,habsent set hset⟩,fun hset => hset.1⟩⟩
  · have hdistinct := h.distinct
    have hcounted := h.counted
    have hcompatible := h.compatible
    have hbounded := h.bounded
    rw [hactive] at hdistinct hcounted hcompatible
    simp only [List.map_append,List.map_cons,List.sum_append,List.sum_cons] at hdistinct hcounted
    have hcount : (st.activeClaimCount + 2 ^ 64 - set.claims.length % 2 ^ 64) % 2 ^ 64 =
        st.activeClaimCount - set.claims.length := by
      unfold maximumActiveClaims at hbounded
      omega
    have hsublist : (before ++ after).Sublist (before ++ set :: after) :=
      (List.Sublist.refl before).append (List.sublist_cons_self set after)
    have hother : ∀ other ∈ before ++ after, other.identifier ≠ identifier := by
      intro other hmem heq
      rw [List.nodup_append,List.nodup_cons] at hdistinct
      obtain ⟨-,⟨hafter,-⟩,hbefore⟩ := hdistinct
      rcases List.mem_append.mp hmem with hmem | hmem
      · exact hbefore _ (List.mem_map_of_mem hmem) _ List.mem_cons_self (heq.trans hid.symm)
      · exact hafter (by rw [hid,← heq]; exact List.mem_map_of_mem hmem)
    rw [heq,hcount]
    refine ⟨⟨h.next,fun other hmem => h.identifiers other (hactive ▸ hsublist.subset hmem),?_,?_,?_,
      hcompatible.sublist hsublist⟩,fun other => ⟨?_,?_⟩⟩
    · exact (hsublist.map _).nodup (by simpa using hdistinct)
    · simp only [List.map_append,List.sum_append]
      omega
    · exact (Nat.sub_le _ _).trans hbounded
    · intro hmem
      exact ⟨hactive ▸ hsublist.subset hmem,hother other hmem⟩
    · intro hmem
      rw [hactive] at hmem
      obtain ⟨hmem,hne⟩ := hmem
      rcases List.mem_append.mp hmem with hmem | hmem
      · exact List.mem_append_left _ hmem
      · rcases List.mem_cons.mp hmem with rfl | hmem
        · exact absurd hid hne
        · exact List.mem_append_right _ hmem

theorem conflicts_iff {left right : ResourceClaim} : conflicts left right = true ↔
    left.root = right.root ∧
      (left.components <+: right.components ∨ right.components <+: left.components) ∧
      (left.mode = .exclusiveMutation ∨ right.mode = .exclusiveMutation) := by
  simp only [conflicts,overlaps,isPrefix,Bool.and_eq_true,Bool.or_eq_true,decide_eq_true_eq,
    List.isPrefixOf_iff_prefix,and_assoc]

theorem interruption_eq_none : interruption moment deadline = none ↔
    interruptionStatus moment deadline = .none := by
  unfold interruption
  split <;> simp_all

theorem makeClaims_length {requests : List FilesystemResourceAccessRequest} :
    ∀ {trees : ℕ → Tree} {claims : List ResourceClaim}, makeClaims trees requests = .ok claims →
      claims.length = requests.length := by
  induction requests with
  | nil =>
    intro trees claims h
    cases h
    rfl
  | cons request rest ih =>
    intro trees claims h
    rw [makeClaims] at h
    split at h
    · cases h
    · split at h
      · cases h
      · rename_i claims' hrest
        cases h
        rw [List.length_cons,List.length_cons,ih hrest]

theorem mem_sortClaims {claim : ResourceClaim} : claim ∈ sortClaims claims ↔ claim ∈ claims :=
  (List.mergeSort_perm claims _).mem_iff

theorem length_sortClaims : (sortClaims claims).length = claims.length :=
  (List.mergeSort_perm claims _).length_eq

theorem earlyCheck_eq_ok_iff {requests : List FilesystemResourceAccessRequest} (h : Valid drawn st) :
    earlyCheck moment deadline requests st = .ok () ↔ interruptionStatus moment deadline = .none ∧
      requests ≠ [] ∧ st.activeClaimCount + requests.length ≤ maximumActiveClaims := by
  have hbounded := h.bounded
  rw [← interruption_eq_none,earlyCheck,h.remainingClaims]
  cases hinterruption : interruption moment deadline with
  | some e => simp
  | none =>
    dsimp only
    split
    · rename_i hnil
      simp [hnil]
    · rename_i hnil
      split
      · rename_i hmany
        simp only [reduceCtorEq,true_and,false_iff,not_and,not_le]
        intro
        omega
      · split
        · simp only [reduceCtorEq,true_and,false_iff,not_and,not_le]
          intro
          omega
        · simp only [ne_eq,hnil,not_false_eq_true,true_and,true_iff]
          omega

theorem prepare_eq_ok_iff {trees : ℕ → Tree} {requests : List FilesystemResourceAccessRequest} :
    prepare allocates trees moment deadline requests = .ok claims ↔ allocates = true ∧
      interruptionStatus moment deadline = .none ∧
      ∃ made, makeClaims trees requests = .ok made ∧ claims = sortClaims made := by
  rw [← interruption_eq_none,prepare]
  cases allocates with
  | false => simp
  | true =>
    simp only [Bool.not_true,Bool.false_eq_true,↓reduceIte,true_and]
    cases hmade : makeClaims trees requests with
    | error e => simp
    | ok made =>
      cases hinterruption : interruption moment deadline with
      | some e => simp
      | none => simp [eq_comm]

theorem register_eq_ok_iff (h : Valid drawn st) :
    (∃ identifier, (register allocates moment deadline claims st).1 = .ok identifier) ↔
      interruptionStatus moment deadline = .none ∧
      st.activeClaimCount + claims.length ≤ maximumActiveClaims ∧
      (∀ set ∈ st.active, ∀ c ∈ set.claims, ∀ d ∈ claims, conflicts c d = false) ∧
      allocates = true := by
  have hbounded := h.bounded
  rw [← interruption_eq_none,← conflictsWithActive_eq_false,register,h.remainingClaims]
  cases hinterruption : interruption moment deadline with
  | some e => simp
  | none =>
    dsimp only
    split
    · rename_i hfull
      simp only [reduceCtorEq,exists_false,true_and,false_iff,not_and]
      intro
      omega
    · rename_i hroom
      have hroom : st.activeClaimCount + claims.length ≤ maximumActiveClaims := by omega
      split
      · rename_i hconflict
        simp [hconflict]
      · rename_i hconflict
        cases allocates with
        | false => simp
        | true => simp [hroom,hconflict]

/-- When a call of `acquire_all` is granted a lease. -/
theorem acquireAll_eq_ok_iff {earlyMoment middleMoment lateMoment : Moment} {preparing registering : Bool}
    {trees : ℕ → Tree} {requests : List FilesystemResourceAccessRequest}
    {early late : FilesystemResourceCoordinatorState} {drawn' : ℕ} (hearly : Valid drawn early)
    (hlate : Valid drawn' late) :
    (∃ identifier, (acquireAll earlyMoment middleMoment lateMoment preparing registering trees deadline
      requests early late).1 = .ok identifier) ↔
      requests ≠ [] ∧ interruptionStatus earlyMoment deadline = .none ∧
      interruptionStatus middleMoment deadline = .none ∧
      interruptionStatus lateMoment deadline = .none ∧
      early.activeClaimCount + requests.length ≤ maximumActiveClaims ∧
      late.activeClaimCount + requests.length ≤ maximumActiveClaims ∧
      (∃ claims, makeClaims trees requests = .ok claims ∧
        ∀ set ∈ late.active, ∀ c ∈ set.claims, ∀ d ∈ claims, conflicts c d = false) ∧
      preparing = true ∧ registering = true := by
  unfold acquireAll
  constructor
  · rintro ⟨identifier,h⟩
    split at h
    · cases h
    · rename_i hcheck
      split at h
      · cases h
      · rename_i claims hprepare
        obtain ⟨hearly',hne,hroom⟩ := (earlyCheck_eq_ok_iff hearly).mp hcheck
        obtain ⟨hpreparing,hmiddle,made,hmade,rfl⟩ := prepare_eq_ok_iff.mp hprepare
        obtain ⟨hlate',hroom',hconflict,hregistering⟩ := (register_eq_ok_iff hlate).mp ⟨identifier,h⟩
        rw [length_sortClaims,makeClaims_length hmade] at hroom'
        refine ⟨hne,hearly',hmiddle,hlate',hroom,hroom',⟨made,hmade,?_⟩,hpreparing,hregistering⟩
        intro set hset c hc d hd
        exact hconflict set hset c hc d (mem_sortClaims.mpr hd)
  · rintro ⟨hne,hearly',hmiddle,hlate',hroom,hroom',⟨made,hmade,hconflict⟩,hpreparing,hregistering⟩
    rw [(earlyCheck_eq_ok_iff hearly).mpr ⟨hearly',hne,hroom⟩]
    dsimp only
    rw [prepare_eq_ok_iff.mpr ⟨hpreparing,hmiddle,made,hmade,rfl⟩]
    refine (register_eq_ok_iff hlate).mpr ⟨hlate',?_,?_,hregistering⟩
    · rw [length_sortClaims,makeClaims_length hmade]
      exact hroom'
    · intro set hset c hc d hd
      exact hconflict set hset c hc d (mem_sortClaims.mp hd)

end FilesystemResourceCoordinator
end SpareNode.Application
