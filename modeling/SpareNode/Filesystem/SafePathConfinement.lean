import SpareNode.Filesystem.SafePath

/-! # Confinement of safe paths

Whatever a request asks for and wherever the links of the tree lead, a path that
`SafePath::resolve` returns stays below the root. The loop over the components keeps one
invariant: what has been resolved is the canonical path of the request so far, inside the
root. After the first missing component only plain names are added.
-/
namespace SpareNode.Filesystem
open LexicalPath FileTree

variable {fs : Tree} {root : SharedRoot} {request text : Bytes} {candidate r : Path}
variable {ns ms cs R : List Name} {c : Name}

theorem startsWithComponents_iff {elements prefixed : List Name} :
    startsWithComponents elements prefixed = true ↔ prefixed <+: elements := by
  induction prefixed generalizing elements with
  | nil => simp [startsWithComponents]
  | cons p prefixed ih =>
    cases elements with
    | nil => simp [startsWithComponents]
    | cons e elements =>
      rw [startsWithComponents,Bool.and_eq_true,decide_eq_true_eq,ih,List.cons_prefix_cons]
      exact and_congr_left (fun _ => eq_comm)

theorem isWithinRoot_iff {candidate root : Path} :
    isWithinRoot candidate root = true ↔ root.elements <+: candidate.elements :=
  startsWithComponents_iff

theorem isWithinRoot_absolute (hms : ∀ n ∈ ms, ProperName n) (hns : ∀ n ∈ ns, ProperName n) :
    isWithinRoot (Path.absolute ms) (Path.absolute ns) = true ↔ ns <+: ms := by
  rw [isWithinRoot_iff,Path.absolute_elements hms,Path.absolute_elements hns,List.cons_prefix_cons]
  exact and_iff_right rfl

theorem SharedRoot.elements_eq (root : SharedRoot) : root.path.elements = [separator] :: root.names := by
  rw [root.absolute,Path.absolute_elements root.proper]
  rfl

/-- A rooted path within the root has names that continue those of the root. -/
theorem names_of_isWithinRoot (hrooted : candidate.rooted = true)
    (h : isWithinRoot candidate root.path = true) : root.names <+: candidate.names := by
  rw [isWithinRoot_iff,root.elements_eq] at h
  rcases Path.elements_rooted hrooted with helements | helements
  · rw [helements,List.cons_prefix_cons] at h
    exact h.2
  · rw [helements,List.cons_append,List.cons_prefix_cons,List.prefix_concat_iff] at h
    rcases h.2 with heq | h
    · -- a trailing separator cannot stand against a name of the root
      have hnil : [] ∈ root.names := by simp [heq]
      exact absurd rfl (root.proper [] hnil).nonempty
    · exact h

/-- A text that one pass of decoding takes from a request, to be read below a root. -/
structure PlainRequest (request text : Bytes) : Prop where
  decoded : ∃ decoded, PercentDecodes request decoded ∧ ¬HasEscape decoded ∧
    text = replaceBackslashes decoded
  utf8 : Utf8.isValid text = true
  null : 0 ∉ text
  unrooted : text.head? ≠ some (char '/')
  driveless : ∀ letter rest, text = letter :: char ':' :: rest →
    ¬(char 'A' ≤ letter ∧ letter ≤ char 'Z') ∧ ¬(char 'a' ≤ letter ∧ letter ≤ char 'z')

theorem hasPortableRoot_false (h : hasPortableRoot text = false) : text.head? ≠ some (char '/') ∧
    ∀ letter rest, text = letter :: char ':' :: rest →
      ¬(char 'A' ≤ letter ∧ letter ≤ char 'Z') ∧ ¬(char 'a' ≤ letter ∧ letter ≤ char 'z') := by
  cases text with
  | nil => simp
  | cons first rest =>
    simp only [hasPortableRoot,Bool.or_eq_false_iff,decide_eq_false_iff_not] at h
    refine ⟨by simpa using h.1,?_⟩
    intro letter tail heq
    obtain ⟨rfl,rfl⟩ := List.cons.inj heq
    have hletter := h.2
    simp only [List.head?_cons,decide_true,Bool.and_true,Bool.or_eq_false_iff] at hletter
    simpa using hletter

theorem normalizedCandidate_rooted (root : SharedRoot) (htext : (Path.ofText text).rooted = false) :
    (normalizedCandidate root text).rooted = true ∧
      ∀ n ∈ (normalizedCandidate root text).names, ProperName n := by
  have hroot : root.path.rooted = true := by
    rw [root.absolute]
    exact (Path.absolute_spec root.proper).1
  have hnormal : (Path.ofText text).lexicallyNormal.rooted = false := by
    unfold Path.lexicallyNormal
    split <;> exact htext
  unfold normalizedCandidate
  dsimp only
  split
  · exact ⟨hroot,root.proper⟩
  · exact Path.lexicallyNormal_proper ((Path.append_rooted hnormal).trans hroot)

/-- What the textual checks of `resolve` establish. -/
theorem lexicalCandidate_spec (h : lexicalCandidate root request = .ok candidate) :
    ∃ text, decodePathRequest request = .ok text ∧ PlainRequest request text ∧
      candidate = normalizedCandidate root text ∧ candidate.rooted = true ∧
      ∃ ms, candidate.names = root.names ++ ms ∧ ∀ m ∈ ms, ProperName m := by
  unfold lexicalCandidate at h
  split at h
  · cases h
  · split at h
    · cases h
    · rename_i text htext
      split at h
      · cases h
      · rename_i hutf8
        split at h
        · cases h
        · rename_i hnull
          split at h
          · cases h
          · rename_i hportable
            dsimp only at h
            split at h
            · cases h
            · rename_i hrooted
              split at h
              · cases h
              · split at h
                · cases h
                · rename_i hwithin
                  cases h
                  have hrooted : (Path.ofText text).rooted = false := by simpa using hrooted
                  obtain ⟨hcandidate,hproper⟩ := normalizedCandidate_rooted root hrooted
                  obtain ⟨ms,hms⟩ := names_of_isWithinRoot hcandidate (by simpa using hwithin)
                  obtain ⟨hslash,hdrive⟩ := hasPortableRoot_false (by simpa using hportable)
                  have hplain : PlainRequest request text :=
                    ⟨decodePathRequest_eq_ok_iff.mp htext,by simpa using hutf8,
                      find_eq_none_iff.mp (by simpa using hnull),hslash,hdrive⟩
                  refine ⟨text,htext,hplain,rfl,hcandidate,ms,hms.symm,fun m hm => hproper m ?_⟩
                  rw [← hms]
                  exact List.mem_append_right _ hm

theorem resolveComponents_filter (canonicalRoot : Path) (cs : List Name) :
    ∀ (resolved : Path) (missingSuffix : Bool),
      resolveComponents fs canonicalRoot cs resolved missingSuffix =
        resolveComponents fs canonicalRoot (cs.filter Path.isEntry) resolved missingSuffix := by
  induction cs with
  | nil => exact fun _ _ => rfl
  | cons c cs ih =>
    intro resolved missingSuffix
    by_cases hentry : Path.isEntry c = true
    · rw [List.filter_cons_of_pos hentry,resolveComponents,resolveComponents]
      simp only [ih]
    · have hskip : (c.isEmpty || decide (c = dot)) = true := by
        simpa [Path.isEntry,or_iff_not_imp_left] using hentry
      rw [List.filter_cons_of_neg hentry,resolveComponents,if_pos hskip,ih]

/-- After a missing component the rest of the names is kept. -/
theorem resolveComponents_missing (canonicalRoot : Path) (hcs : ∀ c ∈ cs, ProperName c) (R : List Name) :
    resolveComponents fs canonicalRoot cs (Path.absolute R) true = .ok (Path.absolute (R ++ cs)) := by
  induction cs generalizing R with
  | nil => simp [resolveComponents]
  | cons c cs ih =>
    have hc := hcs c List.mem_cons_self
    rw [resolveComponents,if_neg (by simp [hc.nonempty,hc.dot]),if_neg (by simp),if_pos rfl,
      ← Path.absolute_snoc,ih (fun x hx => hcs x (List.mem_cons_of_mem c hx)) (R ++ [c])]
    simp

/-- One component below a canonical path is missing, or resolves inside the root. -/
theorem resolveComponents_cons (hR : Canonical fs.kind R) (hc : ProperName c)
    (hns : ∀ n ∈ ns, ProperName n)
    (h : resolveComponents fs (Path.absolute ns) (c :: cs) (Path.absolute R) false = .ok r) :
    fs.kind R = some .directory ∧
      (fs.kind (R ++ [c]) = none ∧
        resolveComponents fs (Path.absolute ns) cs (Path.absolute (R ++ [c])) true = .ok r ∨
      ∃ E, locate fs (R ++ [c]) = .ok E ∧ Canonical fs.kind E ∧ ns <+: E ∧
        resolveComponents fs (Path.absolute ns) cs (Path.absolute E) false = .ok r) := by
  have hproper : ∀ x ∈ R ++ [c], ProperName x := by
    intro x hx
    rcases List.mem_append.mp hx with hx | hx
    · exact hR.proper x hx
    · rw [List.mem_singleton.mp hx]
      exact hc
  rw [resolveComponents,if_neg (by simp [hc.nonempty,hc.dot])] at h
  split at h
  · cases h
  · rename_i hdirectory
    have hdir : fs.kind R = some .directory :=
      (isDirectory_absolute hR).mp (by simpa using hdirectory)
    refine ⟨hdir,?_⟩
    rw [if_neg (by simp),← Path.absolute_snoc,
      symlinkStatus_absolute hproper (locate_of_canonical hR),status,if_neg (not_not.mpr hdir),
      if_neg (by simp [hc.nonempty,hc.dot,hc.dotDot])] at h
    cases hk : fs.kind (R ++ [c]) with
    | none =>
      rw [hk] at h
      exact Or.inl ⟨rfl,h⟩
    | some k =>
      rw [hk] at h
      dsimp only at h
      right
      cases hlocate : locate fs (R ++ [c]) with
      | error e =>
        rw [resolveExistingPath,canonical,resolve_absolute hproper,hlocate] at h
        cases h
      | ok E =>
        have hE := canonical_of_locate hproper hlocate
        rw [resolveExistingPath,canonical_absolute hproper hlocate] at h
        dsimp only at h
        split at h
        · cases h
        · rename_i hwithin
          have hinside := (isWithinRoot_absolute hE.proper hns).mp (by simpa using hwithin)
          exact ⟨E,rfl,hE,hinside,h⟩

/-- The loop ends at the object of a longest existing prefix, followed by missing names. -/
theorem resolveComponents_spec (hR : Canonical fs.kind R) (hwithin : ns <+: R)
    (hns : ∀ n ∈ ns, ProperName n) (hcs : ∀ c ∈ cs, ProperName c)
    (h : resolveComponents fs (Path.absolute ns) cs (Path.absolute R) false = .ok r) :
    ∃ met missing E, cs = met ++ missing ∧ locate fs (R ++ met) = .ok E ∧ Canonical fs.kind E ∧
      ns <+: E ∧ r = Path.absolute (E ++ missing) ∧
      ∀ m rest, missing = m :: rest → fs.kind E = some .directory ∧ fs.kind (E ++ [m]) = none := by
  induction cs generalizing R with
  | nil =>
    rw [resolveComponents] at h
    cases h
    exact ⟨[],[],R,rfl,by simpa using locate_of_canonical hR,hR,hwithin,by simp,by simp⟩
  | cons c cs ih =>
    have hrest : ∀ x ∈ cs, ProperName x := fun x hx => hcs x (List.mem_cons_of_mem c hx)
    obtain ⟨hdir,⟨hmissing,hrun⟩ | ⟨E,hlocate,hE,hinside,hrun⟩⟩ :=
      resolveComponents_cons hR (hcs c List.mem_cons_self) hns h
    · rw [resolveComponents_missing _ hrest] at hrun
      cases hrun
      refine ⟨[],c :: cs,R,rfl,by simpa using locate_of_canonical hR,hR,hwithin,by simp,?_⟩
      intro m rest heq
      obtain ⟨rfl,-⟩ := List.cons.inj heq
      exact ⟨hdir,hmissing⟩
    · obtain ⟨met,missing,E',rfl,hlocate',hspec⟩ := ih hE hinside hrest hrun
      refine ⟨c :: met,missing,E',rfl,?_,hspec⟩
      have hsplit : R ++ c :: met = (R ++ [c]) ++ met := by simp
      rw [hsplit,locate_through hE hlocate,hlocate']

/-- Every prefix that the loop has passed is missing or resolves inside the root. -/
theorem resolveComponents_prefixes (hR : Canonical fs.kind R) (hns : ∀ n ∈ ns, ProperName n)
    (hcs : ∀ c ∈ cs, ProperName c)
    (h : resolveComponents fs (Path.absolute ns) cs (Path.absolute R) false = .ok r) :
    ∀ q, q ≠ [] → q <+: cs → (∃ E, locate fs (R ++ q) = .ok E ∧ Canonical fs.kind E ∧ ns <+: E) ∨
      symlinkStatus fs (Path.absolute (R ++ q)) = .error .notFound := by
  induction cs generalizing R with
  | nil =>
    intro q hne hq
    exact absurd (List.prefix_nil.mp hq) hne
  | cons c cs ih =>
    intro q hne hq
    have hrest : ∀ x ∈ cs, ProperName x := fun x hx => hcs x (List.mem_cons_of_mem c hx)
    have hc := hcs c List.mem_cons_self
    cases q with
    | nil => exact absurd rfl hne
    | cons x q =>
      obtain ⟨rfl,htail⟩ := List.cons_prefix_cons.mp hq
      have hqproper : ∀ y ∈ q, ProperName y := fun y hy => hrest y (htail.subset hy)
      obtain ⟨hdir,⟨hmissing,-⟩ | ⟨E,hlocate,hE,hinside,hrun⟩⟩ := resolveComponents_cons hR hc hns h
      · exact Or.inr (symlinkStatus_missing hdir hR hc hmissing hqproper)
      · have hsplit : R ++ x :: q = (R ++ [x]) ++ q := by simp
        by_cases hnil : q = []
        · subst hnil
          exact Or.inl ⟨E,hlocate,hE,hinside⟩
        · have hproper : ∀ y ∈ (R ++ [x]) ++ q, ProperName y := by
            intro y hy
            simp only [List.mem_append,List.mem_singleton] at hy
            rcases hy with (hy | rfl) | hy
            · exact hR.proper y hy
            · exact hc
            · exact hqproper y hy
          rw [hsplit,locate_through hE hlocate,symlinkStatus_through hE hlocate hproper hnil]
          exact ih hE hrest hrun q hnil htail

/-- The recheck accepts a root that is still the directory it was. -/
theorem recheckRoot_spec (h : recheckRoot fs root = .ok r) :
    r = Path.absolute root.names ∧ Canonical fs.kind root.names ∧ fs.kind root.names = some .directory := by
  unfold recheckRoot resolveExistingPath canonical at h
  rw [root.absolute,resolve_absolute root.proper] at h
  cases hlocate : locate fs root.path.names with
  | error e =>
    rw [hlocate] at h
    cases h
  | ok E =>
    have hE := canonical_of_locate root.proper hlocate
    rw [hlocate] at h
    dsimp only at h
    split at h
    · cases h
    · rename_i hsame
      split at h
      · cases h
      · rename_i hdirectory
        cases h
        simp only [Bool.or_eq_true,Bool.not_eq_true',not_or,Bool.not_eq_false] at hsame
        have hle := (isWithinRoot_absolute hE.proper root.proper).mp hsame.1
        have hge := (isWithinRoot_absolute root.proper hE.proper).mp hsame.2
        obtain rfl : E = root.names := List.IsPrefix.eq_of_length_le hge hle.length_le
        exact ⟨rfl,hE,(isDirectory_absolute hE).mp (by simpa using hdirectory)⟩

/-- Names below the root that resolve have gone through the loop, from a root that is still there. -/
theorem resolveExistingPrefixes_ok {candidate : Path} (hrooted : candidate.rooted = true)
    (hnames : candidate.names = root.names ++ cs) (hcs : ∀ c ∈ cs, ProperName c)
    (h : resolveExistingPrefixes fs candidate root = .ok r) :
    Canonical fs.kind root.names ∧ fs.kind root.names = some .directory ∧
      resolveComponents fs (Path.absolute root.names) cs (Path.absolute root.names) false = .ok r := by
  unfold resolveExistingPrefixes at h
  split at h
  · cases h
  · rename_i canonicalRoot hrecheck
    obtain ⟨rfl,hcanonical,hdirectory⟩ := recheckRoot_spec hrecheck
    have hrelative := Path.lexicallyRelative_names hrooted hnames root.proper hcs
    have hpath : Path.absolute root.names = root.path := root.absolute.symm
    rw [resolveComponents_filter,← hpath,hrelative] at h
    exact ⟨hcanonical,hdirectory,h⟩

theorem SharedRoot.create_spec {input : Path} (h : SharedRoot.create fs input = .ok root) :
    Canonical fs.kind root.names ∧ fs.kind root.names = some .directory := by
  unfold SharedRoot.create at h
  split at h
  · cases h
  · split at h
    · cases h
    · cases h
    · rename_i ns hresolve
      have hns := resolve_canonical hresolve
      split at h
      · rename_i hdir
        cases h
        have hnames : (SharedRoot.ofNames ns hns.proper).names = ns := (Path.absolute_spec hns.proper).2.1
        rw [hnames]
        exact ⟨hns,(isDirectory_absolute hns).mp hdir⟩
      · cases h

/-- The path of a text that was decoded once: the object that the longest existing prefix of
the text leads to, inside the root, and the missing names that follow. -/
structure Confined (fs : Tree) (root : SharedRoot) (text : Bytes) (r : Path)
    (existing missing : List Name) : Prop where
  path : r = Path.absolute (existing ++ missing)
  within : root.path.elements <+: r.elements
  canonical : FileTree.canonical fs (Path.absolute existing) = .ok (Path.absolute existing)
  existingWithin : root.path.elements <+: (Path.absolute existing).elements
  longest : ∀ q, q ≠ [] → q <+: missing →
    symlinkStatus fs (Path.absolute (existing ++ q)) = .error .notFound
  missingProper : ∀ m ∈ missing, m ≠ [] ∧ m ≠ dot ∧ m ≠ dotDot
  unstaged : ∀ n ∈ r.elements.drop root.path.elements.length, isUploadStageComponent n = false
  requested : ∃ met, (normalizedCandidate root text).names = root.names ++ met ++ missing ∧
    FileTree.canonical fs (Path.absolute (root.names ++ met)) = .ok (Path.absolute existing)

theorem resolve_cases {safe : SafePath} (h : SafePath.resolve fs root request = .ok safe) :
    ∃ text cs, decodePathRequest request = .ok text ∧ PlainRequest request text ∧
      (normalizedCandidate root text).names = root.names ++ cs ∧ (∀ c ∈ cs, ProperName c) ∧
      Canonical fs.kind root.names ∧
      resolveComponents fs (Path.absolute root.names) cs (Path.absolute root.names) false = .ok safe.path ∧
      ∀ element ∈ (safe.path.lexicallyRelative root.path).elements,
        isUploadStageComponent element = false := by
  unfold SafePath.resolve at h
  split at h
  · cases h
  · rename_i candidate hcandidate
    obtain ⟨text,htext,hplain,rfl,hrooted,cs,hnames,hcs⟩ := lexicalCandidate_spec hcandidate
    split at h
    · cases h
    · rename_i confined hconfined
      obtain ⟨hcanonical,-,hcomponents⟩ := resolveExistingPrefixes_ok hrooted hnames hcs hconfined
      split at h
      · cases h
      · rename_i hstage
        cases h
        refine ⟨text,cs,htext,hplain,hnames,hcs,hcanonical,hcomponents,?_⟩
        intro element helement
        by_contra hne
        exact hstage (List.any_eq_true.mpr ⟨element,helement,by simpa using hne⟩)

/-- Nothing of an absolute path below the root is a stage name if its relative path has none. -/
theorem absolute_unstaged (hms : ∀ m ∈ ms, ProperName m) (h : root.names <+: ms)
    (hstage : ∀ element ∈ ((Path.absolute ms).lexicallyRelative root.path).elements,
      isUploadStageComponent element = false) :
    ∀ n ∈ (Path.absolute ms).elements.drop root.path.elements.length,
      isUploadStageComponent n = false := by
  obtain ⟨rest,rfl⟩ := h
  have hrest : ∀ x ∈ rest, ProperName x := fun x hx => hms x (List.mem_append_right _ hx)
  obtain ⟨hrooted,hnames,-⟩ := Path.absolute_spec hms
  have hrelative := Path.lexicallyRelative_names hrooted hnames root.proper hrest
  intro n hn
  rw [Path.absolute_elements hms,root.elements_eq,← List.cons_append,List.drop_left,
    ← hrelative] at hn
  rw [root.absolute] at hstage
  exact hstage n (List.mem_filter.mp hn).1

/-- Where a resolution has led: the names of the request that exist lead to an object inside
the root, and the path adds to it the names that are missing. -/
structure Located (fs : Tree) (root : SharedRoot) (text : Bytes) (safe : SafePath)
    (met missing existing : List Name) : Prop where
  names : (normalizedCandidate root text).names = root.names ++ (met ++ missing)
  proper : ∀ c ∈ met ++ missing, ProperName c
  rootCanonical : Canonical fs.kind root.names
  located : locate fs (root.names ++ met) = .ok existing
  canonical : Canonical fs.kind existing
  within : root.names <+: existing
  path : safe.path = Path.absolute (existing ++ missing)
  absent : ∀ m rest, missing = m :: rest →
    fs.kind existing = some .directory ∧ fs.kind (existing ++ [m]) = none
  unstaged : ∀ element ∈ (safe.path.lexicallyRelative root.path).elements,
    isUploadStageComponent element = false

theorem resolve_located {safe : SafePath} (h : SafePath.resolve fs root request = .ok safe) :
    ∃ text met missing existing, decodePathRequest request = .ok text ∧ PlainRequest request text ∧
      Located fs root text safe met missing existing := by
  obtain ⟨text,cs,htext,hplain,hnames,hcs,hcanonical,hrun,hstage⟩ := resolve_cases h
  obtain ⟨met,missing,E,rfl,hlocate,hE,hinside,hpath,hmissing⟩ :=
    resolveComponents_spec hcanonical (List.prefix_refl _) root.proper hcs hrun
  exact ⟨text,met,missing,E,htext,hplain,hnames,hcs,hcanonical,hlocate,hE,hinside,hpath,hmissing,hstage⟩

theorem Located.pathProper {safe : SafePath} {met missing E : List Name}
    (h : Located fs root text safe met missing E) : ∀ x ∈ E ++ missing, ProperName x := by
  intro x hx
  rcases List.mem_append.mp hx with hx | hx
  · exact h.canonical.proper x hx
  · exact h.proper x (List.mem_append_right _ hx)

theorem Located.pathNames {safe : SafePath} {met missing E : List Name}
    (h : Located fs root text safe met missing E) : safe.path.names = E ++ missing := by
  rw [h.path]
  exact (Path.absolute_spec h.pathProper).2.1

theorem Located.requestedProper {safe : SafePath} {met missing E : List Name}
    (h : Located fs root text safe met missing E) : ∀ x ∈ root.names ++ (met ++ missing), ProperName x := by
  intro x hx
  rcases List.mem_append.mp hx with hx | hx
  · exact root.proper x hx
  · exact h.proper x hx

theorem Located.missing_error {safe : SafePath} {met missing E : List Name}
    (h : Located fs root text safe met missing E) (hne : missing ≠ []) :
    locate fs (E ++ missing) = .error .notFound := by
  cases missing with
  | nil => exact absurd rfl hne
  | cons m rest =>
    obtain ⟨hdir,hkind⟩ := h.absent m rest rfl
    exact locate_missing hdir h.canonical (h.proper m (by simp)) hkind rest

/-- A request whose names lead to an object is resolved to that object. -/
theorem Located.of_exists {safe : SafePath} {met missing E T : List Name}
    (h : Located fs root text safe met missing E)
    (hexists : locate fs (root.names ++ (met ++ missing)) = .ok T) : missing = [] ∧ E = T := by
  rw [← List.append_assoc,locate_through h.canonical h.located] at hexists
  by_cases hnil : missing = []
  · rw [hnil,List.append_nil,locate_of_canonical h.canonical] at hexists
    exact ⟨hnil,Except.ok.inj hexists⟩
  · rw [h.missing_error hnil] at hexists
    cases hexists

/-- A safe path that exists is the canonical path of its object. -/
theorem SafePath.canonical_path {safe : SafePath} {c : Path}
    (h : SafePath.resolve fs root request = .ok safe) (hc : canonical fs safe.path = .ok c) :
    c = safe.path := by
  obtain ⟨text,met,missing,E,-,-,hlocated⟩ := resolve_located h
  rw [hlocated.path] at hc ⊢
  by_cases hnil : missing = []
  · rw [hnil,List.append_nil] at hc ⊢
    rw [canonical_absolute hlocated.canonical.proper (locate_of_canonical hlocated.canonical)] at hc
    exact (Except.ok.inj hc).symm
  · rw [canonical,resolve_absolute hlocated.pathProper,hlocated.missing_error hnil] at hc
    cases hc

theorem resolve_confined {safe : SafePath} (h : SafePath.resolve fs root request = .ok safe) :
    ∃ text existing missing, PlainRequest request text ∧
      Confined fs root text safe.path existing missing := by
  obtain ⟨text,met,missing,E,-,hplain,hlocated⟩ := resolve_located h
  have hE := hlocated.canonical
  have hmet : ∀ x ∈ root.names ++ met, ProperName x := by
    intro x hx
    exact hlocated.requestedProper x ((List.prefix_append_right_inj _).mpr (List.prefix_append _ _) |>.subset hx)
  have hsuffix : ∀ x ∈ missing, ProperName x :=
    fun x hx => hlocated.proper x (List.mem_append_right _ hx)
  have hroot : root.names <+: E ++ missing := hlocated.within.trans (List.prefix_append _ _)
  refine ⟨text,E,missing,hplain,hlocated.path,?_,canonical_absolute hE.proper (locate_of_canonical hE),
    ?_,?_,?_,?_,met,by rw [hlocated.names,List.append_assoc],canonical_absolute hmet hlocated.located⟩
  · rw [hlocated.path,root.elements_eq,Path.absolute_elements hlocated.pathProper]
    exact List.cons_prefix_cons.mpr ⟨rfl,hroot⟩
  · rw [root.elements_eq,Path.absolute_elements hE.proper]
    exact List.cons_prefix_cons.mpr ⟨rfl,hlocated.within⟩
  · intro q hne hq
    cases q with
    | nil => exact absurd rfl hne
    | cons m q =>
      obtain ⟨rest,hrest⟩ := hq
      obtain ⟨hdir,hkind⟩ := hlocated.absent m (q ++ rest) hrest.symm
      have hq : ∀ x ∈ m :: q, ProperName x :=
        fun x hx => hsuffix x (hrest ▸ List.mem_append_left rest hx)
      exact symlinkStatus_missing hdir hE (hq m List.mem_cons_self) hkind
        (fun x hx => hq x (List.mem_cons_of_mem m hx))
  · intro m hm
    obtain ⟨hne,hdot,hdotDot,-⟩ := hsuffix m hm
    exact ⟨hne,hdot,hdotDot⟩
  · have hstage := hlocated.unstaged
    rw [hlocated.path] at hstage ⊢
    exact absolute_unstaged hlocated.pathProper hroot hstage

/-- A link on the way of a request that resolves leads to an object inside the root. -/
theorem resolve_links {safe : SafePath} (h : SafePath.resolve fs root request = .ok safe)
    (htext : decodePathRequest request = .ok text) {p : List Name} {target : Path}
    (hp : p <+: (normalizedCandidate root text).names)
    (hlink : symlinkStatus fs (Path.absolute p) = .ok (.symlink target)) :
    ∃ c, canonical fs (Path.absolute p) = .ok c ∧ isWithinRoot c root.path = true := by
  obtain ⟨text',cs,htext',-,hnames,hcs,hcanonical,hrun,-⟩ := resolve_cases h
  obtain rfl : text = text' := Except.ok.inj (htext.symm.trans htext')
  rw [hnames] at hp
  rcases List.prefix_or_prefix_of_prefix hp (List.prefix_append root.names cs) with hroot | hbelow
  · -- the root is a chain of directories, so no link stands on the way to it
    obtain ⟨rest,hrest⟩ := hroot
    rw [← hrest] at hcanonical
    exact absurd hlink (symlinkStatus_of_canonical hcanonical.of_append target)
  · obtain ⟨q,rfl⟩ := hbelow
    have hq := (List.prefix_append_right_inj root.names).mp hp
    by_cases hnil : q = []
    · subst hnil
      rw [List.append_nil] at hlink
      exact absurd hlink (symlinkStatus_of_canonical hcanonical target)
    · have hproper : ∀ x ∈ root.names ++ q, ProperName x := by
        intro x hx
        rcases List.mem_append.mp hx with hx | hx
        · exact root.proper x hx
        · exact hcs x (hq.subset hx)
      rcases resolveComponents_prefixes hcanonical root.proper hcs hrun q hnil hq with
        ⟨E,hlocate,hE,hinside⟩ | hmissing
      · refine ⟨Path.absolute E,canonical_absolute hproper hlocate,?_⟩
        rw [root.absolute]
        exact (isWithinRoot_absolute hE.proper root.proper).mpr hinside
      · rw [hlink] at hmissing
        cases hmissing

/-- Safe paths stay below their root, and no link takes a request out of it. -/
theorem safePath_confines (fs : Tree) (root : SharedRoot) (request : Bytes) :
    (∀ safe, SafePath.resolve fs root request = .ok safe → ∃ text existing missing,
      PlainRequest request text ∧ Confined fs root text safe.path existing missing) ∧
    (∀ text p target, decodePathRequest request = .ok text →
      p <+: (normalizedCandidate root text).names →
      symlinkStatus fs (Path.absolute p) = .ok (.symlink target) →
      (∀ c, canonical fs (Path.absolute p) = .ok c → isWithinRoot c root.path = false) →
      ∃ e, SafePath.resolve fs root request = .error e) := by
  refine ⟨fun safe h => resolve_confined h,?_⟩
  intro text p target htext hp hlink hleaves
  cases h : SafePath.resolve fs root request with
  | error e => exact ⟨e,rfl⟩
  | ok safe =>
    obtain ⟨c,hc,hwithin⟩ := resolve_links h htext hp hlink
    rw [hleaves c hc] at hwithin
    cases hwithin

theorem resolve_nil (hcanonical : Canonical fs.kind root.names)
    (hdir : fs.kind root.names = some .directory) :
    SafePath.resolve fs root [] = .ok ⟨root.path⟩ := by
  have hself : isWithinRoot root.path root.path = true := isWithinRoot_iff.mpr (List.prefix_refl _)
  have hcandidate : lexicalCandidate root [] = .ok root.path := by
    have hdecode : decodePathRequest [] = .ok [] := rfl
    have hvalid : Utf8.isValid [] = true := by decide +kernel
    have hnormal : normalizedCandidate root [] = root.path := rfl
    rw [lexicalCandidate,if_neg (by decide),hdecode]
    dsimp only
    rw [hvalid,hnormal,hself,if_neg (by decide),if_neg (by decide),if_neg (by decide),
      if_neg (by decide),if_neg (by decide),if_neg (by decide)]
  have hpath : root.path = Path.absolute root.names := root.absolute
  have hcanon : canonical fs root.path = .ok root.path := by
    rw [hpath]
    exact canonical_absolute root.proper (locate_of_canonical hcanonical)
  have hisdir : isDirectory fs root.path = true := by
    rw [hpath]
    exact (isDirectory_absolute hcanonical).mpr hdir
  have hrecheck : recheckRoot fs root = .ok root.path := by
    simp [recheckRoot,resolveExistingPath,hcanon,hself,hisdir]
  have hskip : resolveComponents fs root.path (Path.ofText dot).elements root.path false =
      .ok root.path := by
    rw [resolveComponents_filter]
    rfl
  rw [SafePath.resolve,hcandidate]
  dsimp only
  rw [resolveExistingPrefixes,hrecheck]
  dsimp only
  rw [Path.lexicallyRelative_self,hskip]
  dsimp only
  rw [Path.lexicallyRelative_self,if_neg (by decide)]

/-- A root with a directory, a link to it, and a link out of the root. -/
def linkedTree : Tree where
  kind ns :=
    if ns = [] ∨ ns = [ascii "srv"] ∨ ns = [ascii "srv",ascii "docs"] ∨ ns = [ascii "etc"] then
      some .directory
    else if ns = [ascii "srv",ascii "link"] then some (.symlink (Path.ofText (ascii "./docs/")))
    else if ns = [ascii "srv",ascii "out"] then some (.symlink (Path.ofText (ascii "../etc")))
    else none
  root := by decide +kernel
  workingDirectory := []
  working := canonical_nil (by decide +kernel)
  linkDepth := 40

def linkedRoot : SharedRoot := SharedRoot.ofNames [ascii "srv"] (by
  intro n hn
  rw [List.mem_singleton.mp hn]
  exact ⟨by decide +kernel,by decide +kernel,by decide +kernel,by decide +kernel⟩)

theorem safePath_confines_linked :
    (∃ text existing missing, PlainRequest (ascii "link/..%2Flink/new%20file") text ∧
      Confined linkedTree linkedRoot text
        (Path.absolute [ascii "srv",ascii "docs",ascii "new file"]) existing missing) ∧
    ∃ e, SafePath.resolve linkedTree linkedRoot (ascii "docs\\..\\out/passwd") = .error e := by
  refine ⟨(safePath_confines linkedTree linkedRoot (ascii "link/..%2Flink/new%20file")).1
    ⟨Path.absolute [ascii "srv",ascii "docs",ascii "new file"]⟩ (by decide +kernel),?_⟩
  refine (safePath_confines linkedTree linkedRoot (ascii "docs\\..\\out/passwd")).2
    (ascii "docs/../out/passwd") [ascii "srv",ascii "out"] (Path.ofText (ascii "../etc"))
    (by decide +kernel) (by decide +kernel) (by decide +kernel) ?_
  intro c hc
  have hetc : canonical linkedTree (Path.absolute [ascii "srv",ascii "out"]) =
      .ok (Path.absolute [ascii "etc"]) := by decide +kernel
  obtain rfl := Except.ok.inj (hc.symm.trans hetc)
  decide +kernel

end SpareNode.Filesystem
