import SpareNode.Application.CoordinatorRuns
import SpareNode.Filesystem.SafePathConfinement

/-! # Exclusion on the filesystem

The registry compares the root of a claim and the names below it. Two claims below one root
meet on the filesystem exactly when their names do. Claims below different roots never meet
in the registry, so the exclusion on the filesystem holds exactly for roots of which none
lies below another.
-/
namespace SpareNode.Application
open LexicalPath FileTree Filesystem FilesystemResourceCoordinator Concurrency

/-- The names of the claimed object from the root directory. -/
def ResourceClaim.absoluteNames (claim : ResourceClaim) : List Name :=
  claim.root.names ++ claim.components

/-- The claims are for one object, or for an object and one of its ancestors. -/
def ResourceClaim.Related (c d : ResourceClaim) : Prop :=
  c.absoluteNames <+: d.absoluteNames ∨ d.absoluteNames <+: c.absoluteNames

namespace SharedCoordinator
variable {st st' : SharedCoordinator} {a : Action} {o : Outcome} {roots : Set SharedRoot}
variable {trace : List (Action × Outcome)}

def Excludes (st : SharedCoordinator) : Prop :=
  ∀ slot slot' identifier identifier', slot ≠ slot' → st.Owns slot identifier →
    st.Owns slot' identifier' → ∀ set ∈ st.registry.active, set.identifier = identifier →
    ∀ set' ∈ st.registry.active, set'.identifier = identifier' →
    ∀ c ∈ set.claims, ∀ d ∈ set'.claims, c.Related d → c.mode = .sharedRead ∧ d.mode = .sharedRead

/-- The roots that the calls of a step name. -/
def UsesRoots (roots : Set SharedRoot) : Action → Prop
  | .earlyCheck _ requests _ _ => ∀ request ∈ requests, ∀ root, request.root = some root → root ∈ roots
  | _ => True

/-- The claims of a list are below the roots. -/
def Below (roots : Set SharedRoot) (claims : List ResourceClaim) : Prop :=
  ∀ c ∈ claims, ∃ root ∈ roots, c.root = root.path

/-- The roots or the claims of a call under way are among the given roots. -/
def CallRooted (roots : Set SharedRoot) : Call → Prop
  | .admitted requests _ => ∀ request ∈ requests, ∀ root, request.root = some root → root ∈ roots
  | .prepared claims _ => Below roots claims

structure Rooted (roots : Set SharedRoot) (st : SharedCoordinator) : Prop where
  active : ∀ set ∈ st.registry.active, Below roots set.claims
  calls : ∀ thread call, st.calls thread = some call → CallRooted roots call

theorem makeClaims_below {requests : List FilesystemResourceAccessRequest}
    (hroots : ∀ request ∈ requests, ∀ root, request.root = some root → root ∈ roots) :
    ∀ {trees : ℕ → Tree} {claims : List ResourceClaim}, makeClaims trees requests = .ok claims →
      Below roots claims := by
  induction requests with
  | nil =>
    intro trees claims h
    cases h
    simp [Below]
  | cons request rest ih =>
    intro trees claims h
    rw [makeClaims] at h
    split at h
    · cases h
    · rename_i claim hclaim
      split at h
      · cases h
      · rename_i claims' hrest
        cases h
        intro c hc
        rcases List.mem_cons.mp hc with rfl | hc
        · unfold makeClaim at hclaim
          split at hclaim
          · cases hclaim
          · rename_i root hroot
            split at hclaim <;> cases hclaim
            exact ⟨root,hroots request List.mem_cons_self root hroot,rfl⟩
        · exact ih (fun r hr => hroots r (List.mem_cons_of_mem request hr)) hrest c hc

theorem update_rooted {calls : ℕ → Option Call} {thread : ℕ} {next : Option Call}
    (h : ∀ thread call, calls thread = some call → CallRooted roots call)
    (hnext : ∀ call, next = some call → CallRooted roots call) :
    ∀ t call, Function.update calls thread next t = some call → CallRooted roots call := by
  intro t call hcall
  by_cases ht : t = thread
  · subst ht
    rw [Function.update_self] at hcall
    exact hnext call hcall
  · rw [Function.update_of_ne ht] at hcall
    exact h t call hcall

theorem mem_of_mem_release {lease : FilesystemResourceLease} {set : ActiveClaimSet}
    {registry : FilesystemResourceCoordinatorState} (h : set ∈ (lease.release registry).active) :
    set ∈ registry.active := by
  unfold FilesystemResourceLease.release at h
  split at h
  · exact h
  · rcases release_cases lease.identifier registry with ⟨heq,-⟩ | ⟨before,ended,after,hactive,-,heq⟩
    · rwa [heq] at h
    · rw [heq] at h
      rw [hactive]
      rcases List.mem_append.mp h with h | h
      · exact List.mem_append_left _ h
      · exact List.mem_append_right _ (List.mem_cons_of_mem _ h)

theorem act_rooted (h : Rooted roots st) (hroots : UsesRoots roots a)
    (hact : act st a = some (st',o)) : Rooted roots st' := by
  cases a with
  | earlyCheck thread requests deadline moment =>
    simp only [act] at hact
    split at hact
    · cases hact
    · split at hact <;> cases hact
      · exact h
      · refine ⟨h.active,update_rooted h.calls ?_⟩
        rintro call ⟨⟩
        exact hroots
  | prepare thread allocates trees moment =>
    simp only [act] at hact
    split at hact
    · rename_i requests deadline hcall
      split at hact <;> cases hact
      · exact ⟨h.active,update_rooted h.calls (by simp)⟩
      · rename_i claims hprepare
        obtain ⟨-,-,made,hmade,rfl⟩ := prepare_eq_ok_iff.mp hprepare
        have hbelow := makeClaims_below (h.calls thread _ hcall) hmade
        refine ⟨h.active,update_rooted h.calls ?_⟩
        rintro call ⟨⟩
        exact fun c hc => hbelow c (mem_sortClaims.mp hc)
    · cases hact
  | register thread slot allocates moment =>
    simp only [act] at hact
    split at hact
    · rename_i claims deadline hcall hslot
      have hclaims : Below roots claims := h.calls thread _ hcall
      split at hact <;> cases hact
      · rename_i e registry hregister
        refine ⟨?_,update_rooted h.calls (by simp)⟩
        rcases register_cases hregister with ⟨-,-,hactive,-⟩ | ⟨hok,-⟩
        · rw [hactive]
          exact h.active
        · cases hok
      · rename_i identifier registry hregister
        refine ⟨?_,update_rooted h.calls (by simp)⟩
        rcases register_cases hregister with ⟨-,-,hactive,-⟩ | ⟨-,-,-,rfl⟩
        · rw [hactive]
          exact h.active
        · intro set hset
          rcases List.mem_append.mp hset with hset | hset
          · exact h.active set hset
          · rw [List.mem_singleton.mp hset]
            exact hclaims
    · cases hact
  | moveLease target source =>
    simp only [act] at hact
    split at hact <;> cases hact
    exact ⟨h.active,h.calls⟩
  | assignLease target source =>
    simp only [act] at hact
    split at hact
    · split at hact <;> cases hact
      · exact h
      · exact ⟨fun set hset => h.active set (mem_of_mem_release hset),h.calls⟩
    · cases hact
  | destroyLease slot =>
    simp only [act] at hact
    split at hact <;> cases hact
    exact ⟨fun set hset => h.active set (mem_of_mem_release hset),h.calls⟩

theorem run_rooted (h : Run initial trace st) (hroots : ∀ step ∈ trace, UsesRoots roots step.1) :
    Rooted roots st := by
  induction h with
  | nil => exact ⟨by simp [initial,create],by simp [initial]⟩
  | @snoc trace st st' a o h hact ih =>
    exact act_rooted (ih (fun step hstep => hroots step (by simp [hstep]))) (hroots (a,o) (by simp)) hact

def Unnested (roots : Set SharedRoot) : Prop :=
  ∀ root ∈ roots, ∀ root' ∈ roots, root.names <+: root'.names → root.names = root'.names

theorem Related.overlap (hroots : Unnested roots) {c d : ResourceClaim} {root root' : SharedRoot}
    (hroot : root ∈ roots) (hc : c.root = root.path) (hroot' : root' ∈ roots)
    (hd : d.root = root'.path) (h : c.Related d) :
    c.root = d.root ∧ (c.components <+: d.components ∨ d.components <+: c.components) := by
  unfold ResourceClaim.Related ResourceClaim.absoluteNames at h
  have hnames : root.names = root'.names := by
    have hcr : c.root.names = root.names := by rw [hc]; rfl
    have hdr : d.root.names = root'.names := by rw [hd]; rfl
    rw [hcr,hdr] at h
    have hcomparable : root.names <+: root'.names ∨ root'.names <+: root.names := by
      rcases h with h | h
      · exact List.prefix_or_prefix_of_prefix ((List.prefix_append _ _).trans h) (List.prefix_append _ _)
      · exact (List.prefix_or_prefix_of_prefix ((List.prefix_append _ _).trans h)
          (List.prefix_append _ _)).symm
    rcases hcomparable with hle | hle
    · exact hroots root hroot root' hroot' hle
    · exact (hroots root' hroot' root hroot hle).symm
  have hsame : c.root = d.root := by
    rw [hc,hd,root.absolute,root'.absolute]
    exact congrArg Path.absolute hnames
  rw [hsame] at h
  exact ⟨hsame,h.imp (List.prefix_append_right_inj _).mp (List.prefix_append_right_inj _).mp⟩

theorem excludes_of_unnested (hroots : Unnested roots) (h : Run initial trace st)
    (huses : ∀ step ∈ trace, UsesRoots roots step.1) (hdrawn : drawnIn trace < 2 ^ 64) : Excludes st := by
  have hsound : Sound (drawnIn trace) st := by
    have hrun := run_sound initial_sound h (by omega)
    rwa [Nat.zero_add] at hrun
  have hrooted := run_rooted h huses
  intro slot slot' identifier identifier' hne hslot hslot' set hset hid set' hset' hid' c hc d hd hrelated
  have hsets : set ≠ set' := by
    rintro rfl
    rw [← hid] at hslot
    rw [← hid'] at hslot'
    exact hne (hsound.unique _ _ _ hslot hslot')
  obtain ⟨root,hroot,hcr⟩ := hrooted.active set hset c hc
  obtain ⟨root',hroot',hdr⟩ := hrooted.active set' hset' d hd
  obtain ⟨hsame,hoverlap⟩ := Related.overlap hroots hroot hcr hroot' hdr hrelated
  exact hsound.sharedReads hset hset' hsets hc hd hsame hoverlap

/-- The directories on the way to some names, and nothing else. -/
def chainTree (ns : List Name) : Tree where
  kind p := if p.isPrefixOf ns then some .directory else none
  root := by simp
  workingDirectory := []
  working := canonical_nil (by simp)
  linkDepth := 0

theorem chainTree_directory {ns p : List Name} (h : p <+: ns) :
    (chainTree ns).kind p = some .directory := if_pos (List.isPrefixOf_iff_prefix.mpr h)

theorem chainTree_canonical {ns p : List Name} (hns : ∀ n ∈ ns, ProperName n) (h : p <+: ns) :
    Canonical (chainTree ns).kind p := by
  refine ⟨fun n hn => hns n (h.subset hn),?_,.directory,chainTree_directory h,by simp⟩
  rintro q n rest rfl
  exact chainTree_directory ((List.prefix_append _ _).trans h)

/-- An exclusive request for the whole of a root. -/
def wholeRequest (root : SharedRoot) : FilesystemResourceAccessRequest := ⟨some root,[],.exclusiveMutation⟩

def wholeClaim (root : SharedRoot) : ResourceClaim := ⟨root.path,[],.exclusiveMutation⟩

theorem prepare_whole {fs : Tree} {root : SharedRoot} (hcanonical : Canonical fs.kind root.names)
    (hdir : fs.kind root.names = some .directory) :
    prepare true (fun _ => fs) ⟨false,0⟩ none [wholeRequest root] = .ok [wholeClaim root] := by
  refine prepare_eq_ok_iff.mpr ⟨rfl,rfl,[wholeClaim root],?_,by simp [sortClaims]⟩
  have hclaim : makeClaim fs (wholeRequest root) = .ok (wholeClaim root) := by
    simp only [makeClaim,wholeRequest,resolve_nil hcanonical hdir,Path.lexicallyRelative_self]
    rfl
  simp only [makeClaims,hclaim]

/-- Both roots are mutated at once when one lies below the other. -/
theorem nested_collides {root root' : SharedRoot} (hbelow : root.names <+: root'.names)
    (hne : root.names ≠ root'.names) :
    ∃ trace st, Run initial trace st ∧ (∀ step ∈ trace, UsesRoots {root,root'} step.1) ∧
      drawnIn trace = 2 ∧ ¬Excludes st := by
  have hpath : root.path ≠ root'.path := fun heq => hne (congrArg Path.names heq)
  have hfirst := prepare_whole (chainTree_canonical root'.proper hbelow) (chainTree_directory hbelow)
  have hsecond := prepare_whole (chainTree_canonical root'.proper (List.prefix_refl _))
    (chainTree_directory (List.prefix_refl _))
  have hregister : register true ⟨false,0⟩ none [wholeClaim root] create =
      (.ok 1,⟨[⟨1,[wholeClaim root]⟩],1,2⟩) := rfl
  have hregister' : register true ⟨false,0⟩ none [wholeClaim root'] ⟨[⟨1,[wholeClaim root]⟩],1,2⟩ =
      (.ok 2,⟨[⟨1,[wholeClaim root]⟩,⟨2,[wholeClaim root']⟩],2,3⟩) := by
    have hfree : conflictsWithActive [⟨1,[wholeClaim root]⟩] [wholeClaim root'] = false := by
      simp [conflictsWithActive,claimSetConflicts,conflicts,overlaps,wholeClaim,hpath]
    simp [register,interruption,interruptionStatus,remainingClaims,maximumActiveClaims,hfree]
  have hone := @run_call initial initial [] Run.nil 0 0 1 none _ _ _ ⟨false,0⟩ _ _ _ rfl rfl rfl
    hfirst hregister
  have hcheck : earlyCheck ⟨false,0⟩ none [wholeRequest root'] ⟨[⟨1,[wholeClaim root]⟩],1,2⟩ = .ok () := by
    simp [earlyCheck,interruption,interruptionStatus,remainingClaims,maximumActiveClaims]
  have htwo := @run_call _ _ _ hone 0 1 2 none _ _ _ ⟨false,0⟩ _ _ _ rfl rfl hcheck hsecond hregister'
  refine ⟨_,_,htwo,?_,rfl,?_⟩
  · intro step hstep
    simp only [List.nil_append,List.cons_append,List.mem_cons,List.not_mem_nil,
      or_false] at hstep
    rcases hstep with rfl | rfl | rfl | rfl | rfl | rfl <;> simp [UsesRoots,wholeRequest]
  · intro hexcludes
    have hshared := hexcludes 0 1 1 2 (by decide) rfl rfl ⟨1,[wholeClaim root]⟩ (by simp) rfl
      ⟨2,[wholeClaim root']⟩ (by simp) rfl (wholeClaim root) (by simp) (wholeClaim root') (by simp)
      (Or.inl (by simpa [ResourceClaim.absoluteNames,wholeClaim,SharedRoot.names] using hbelow))
    cases hshared.1

theorem docsNames_proper : ∀ n ∈ [ascii "srv",ascii "docs"], ProperName n := by
  intro n hn
  have hnames : n = ascii "srv" ∨ n = ascii "docs" := by simpa using hn
  rcases hnames with rfl | rfl <;>
    exact ⟨by decide +kernel,by decide +kernel,by decide +kernel,by decide +kernel⟩

/-- The leases exclude each other on the filesystem in every run exactly when no root lies
below another. -/
theorem coordinator_excludes_iff (roots : Set SharedRoot) :
    (∀ trace st, Run initial trace st → (∀ step ∈ trace, UsesRoots roots step.1) →
      drawnIn trace < 2 ^ 64 → Excludes st) ↔ Unnested roots := by
  constructor
  · intro hall root hroot root' hroot' hbelow
    by_contra hne
    obtain ⟨trace,st,hrun,huses,hdrawn,hcollides⟩ := nested_collides hbelow hne
    refine hcollides (hall trace st hrun ?_ (by omega))
    intro step hstep
    have hstep := huses step hstep
    cases hact : step.1 with
    | earlyCheck thread requests deadline moment =>
      rw [hact] at hstep
      intro request hrequest root₀ hroot₀
      rcases hstep request hrequest root₀ hroot₀ with rfl | rfl
      · exact hroot
      · exact hroot'
    | _ => trivial
  · intro hroots trace st hrun huses hdrawn
    exact excludes_of_unnested hroots hrun huses hdrawn

/-- The roots `/srv` and `/srv/docs` can both be mutated as a whole at the same time. -/
theorem nested_roots_collide :
    ∃ trace st, Run initial trace st ∧
      (∀ step ∈ trace, UsesRoots {linkedRoot,SharedRoot.ofNames [ascii "srv",ascii "docs"] docsNames_proper}
        step.1) ∧ drawnIn trace = 2 ∧ ¬Excludes st :=
  nested_collides (by decide +kernel) (by decide +kernel)

end SharedCoordinator
end SpareNode.Application
