import SpareNode.Library.LexicalPath

/-! # File trees with symbolic links

A fixed tree of files, directories and symbolic links, keyed by the names from the root, and
the path queries of an operating system as functions of it. Links may lead anywhere, through
other links, up, out, or nowhere; resolution follows them to a bounded nesting. Resolving a
path names an object by a chain of directories without links, which resolves to itself.
-/
namespace FileTree
open LexicalPath

inductive Kind where
  | regular
  | directory
  | symlink (target : Path)
deriving DecidableEq

inductive PathError where
  | notFound | notDirectory | tooManyLinks
deriving DecidableEq, Repr

/-- The names lead through directories to an object that is no link. -/
structure Canonical (kind : List Name → Option Kind) (ns : List Name) : Prop where
  proper : ∀ n ∈ ns, ProperName n
  parents : ∀ p n q, ns = p ++ n :: q → kind p = some .directory
  present : ∃ k, kind ns = some k ∧ ∀ target, k ≠ .symlink target

theorem canonical_nil {kind : List Name → Option Kind} (h : kind [] = some .directory) :
    Canonical kind [] := by
  refine ⟨by simp,?_,.directory,h,by simp⟩
  intro p n q hq
  simp at hq

structure Tree where
  kind : List Name → Option Kind
  root : kind [] = some .directory
  workingDirectory : List Name
  working : Canonical kind workingDirectory
  linkDepth : ℕ

variable (fs : Tree)

/-- One component of a path, from a resolved object; `follow` resolves a link found in it. -/
def step (follow : List Name → Path → Except PathError (List Name)) (here : List Name) (c : Name) :
    Except PathError (List Name) :=
  if fs.kind here ≠ some .directory then .error .notDirectory
  else if c = [] || c = dot then .ok here
  else if c = dotDot then .ok here.dropLast
  else
    match fs.kind (here ++ [c]) with
    | none => .error .notFound
    | some (.symlink target) => follow here target
    | some _ => .ok (here ++ [c])

def walk (follow : List Name → Path → Except PathError (List Name)) (here : List Name)
    (components : List Name) : Except PathError (List Name) :=
  components.foldlM (step fs follow) here

/-- Resolution of a link's target from the directory that holds the link. -/
def follow : ℕ → List Name → Path → Except PathError (List Name)
  | 0, _, _ => .error .tooManyLinks
  | depth + 1, here, target =>
    if target.isEmpty then .error .notFound
    else walk fs (follow depth) (if target.rooted then [] else here) (target.dirs ++ [target.filename])

def start (path : Path) : List Name := if path.rooted then [] else fs.workingDirectory

/-- The names of the object that a path resolves to, all links followed. -/
def resolve (path : Path) : Except PathError (List Name) :=
  if path.isEmpty then .error .notFound
  else walk fs (follow fs fs.linkDepth) (start fs path) (path.dirs ++ [path.filename])

def locate (ns : List Name) : Except PathError (List Name) := walk fs (follow fs fs.linkDepth) [] ns

def canonical (path : Path) : Except PathError Path :=
  match resolve fs path with
  | .error e => .error e
  | .ok ns => .ok (Path.absolute ns)

/-- `std::filesystem::is_directory`, false on an error. -/
def isDirectory (path : Path) : Bool :=
  match resolve fs path with
  | .error _ => false
  | .ok ns => fs.kind ns = some .directory

/-- `std::filesystem::equivalent`: both paths must lead to the same object. -/
def equivalent (a b : Path) : Except PathError Bool :=
  match resolve fs a, resolve fs b with
  | .error e, _ => .error e
  | _, .error e => .error e
  | .ok ns, .ok ms => .ok (ns = ms)

/-- What a directory holds under a component, links not followed. -/
def status (here : List Name) (c : Name) : Except PathError Kind :=
  if fs.kind here ≠ some .directory then .error .notDirectory
  else if c = [] || c = dot || c = dotDot then .ok .directory
  else
    match fs.kind (here ++ [c]) with
    | none => .error .notFound
    | some k => .ok k

def symlinkStatus (path : Path) : Except PathError Kind :=
  if path.isEmpty then .error .notFound else
    match walk fs (follow fs fs.linkDepth) (start fs path) path.dirs with
    | .error e => .error e
    | .ok here => status fs here path.filename

variable {fs}
variable {f : List Name → Path → Except PathError (List Name)} {here ns ms : List Name} {n c : Name}

theorem canonical_root : Canonical fs.kind [] := canonical_nil fs.root

theorem Canonical.init (h : Canonical fs.kind (ns ++ [n])) : Canonical fs.kind ns := by
  refine ⟨fun x hx => h.proper x (List.mem_append_left _ hx),?_,.directory,?_,by simp⟩
  · intro p m q hq
    exact h.parents p m (q ++ [n]) (by simp [hq])
  · exact h.parents ns n [] rfl

theorem Canonical.of_append (h : Canonical fs.kind (ns ++ ms)) : Canonical fs.kind ns := by
  induction ms using List.reverseRecOn with
  | nil => simpa using h
  | append_singleton ms m ih =>
    rw [← List.append_assoc] at h
    exact ih h.init

theorem Canonical.directory (h : Canonical fs.kind (ns ++ [n])) : fs.kind ns = some .directory :=
  h.parents ns n [] rfl

theorem Canonical.dropLast (h : Canonical fs.kind here) : Canonical fs.kind here.dropLast := by
  cases here using List.reverseRecOn with
  | nil => exact h
  | append_singleton ns n =>
    rw [List.dropLast_concat]
    exact h.init

theorem Canonical.snoc (h : Canonical fs.kind here) (hdir : fs.kind here = some .directory)
    (hn : ProperName n) {k : Kind} (hk : fs.kind (here ++ [n]) = some k)
    (hlink : ∀ target, k ≠ .symlink target) : Canonical fs.kind (here ++ [n]) := by
  refine ⟨?_,?_,k,hk,hlink⟩
  · intro x hx
    rcases List.mem_append.mp hx with hx | hx
    · exact h.proper x hx
    · rw [List.mem_singleton.mp hx]
      exact hn
  · intro p m q hq
    cases q using List.reverseRecOn with
    | nil =>
      obtain ⟨rfl,-⟩ := List.append_inj' hq rfl
      exact hdir
    | append_singleton q x =>
      have hcut : here ++ [n] = (p ++ m :: q) ++ [x] := by simpa using hq
      obtain ⟨hhere,-⟩ := List.append_inj' hcut rfl
      exact h.parents p m q hhere

theorem step_canonical (h : Canonical fs.kind here) (hc : separator ∉ c)
    (hf : ∀ target r, f here target = .ok r → Canonical fs.kind r) {r : List Name}
    (hstep : step fs f here c = .ok r) : Canonical fs.kind r := by
  unfold step at hstep
  split at hstep
  · cases hstep
  · rename_i hdir
    split at hstep
    · cases hstep
      exact h
    · rename_i hdot
      split at hstep
      · cases hstep
        exact h.dropLast
      · rename_i hdotDot
        have hdots : c ≠ [] ∧ c ≠ dot := by simpa using hdot
        split at hstep
        · cases hstep
        · exact hf _ r hstep
        · rename_i k hnot hk
          cases hstep
          exact h.snoc (not_not.mp hdir) ⟨hdots.1,hdots.2,hdotDot,hc⟩ hk
            (fun target heq => hnot target (heq ▸ rfl))

theorem walk_canonical {cs : List Name} (h : Canonical fs.kind here) (hcs : ∀ c ∈ cs, separator ∉ c)
    (hf : ∀ here target r, Canonical fs.kind here → f here target = .ok r → Canonical fs.kind r)
    {r : List Name} (hwalk : walk fs f here cs = .ok r) : Canonical fs.kind r := by
  unfold walk at hwalk
  induction cs generalizing here with
  | nil =>
    cases hwalk
    exact h
  | cons c cs ih =>
    rw [List.foldlM_cons] at hwalk
    cases hstep : step fs f here c with
    | error e =>
      rw [hstep] at hwalk
      cases hwalk
    | ok next =>
      rw [hstep] at hwalk
      have hnext := step_canonical h (hcs c List.mem_cons_self) (fun t r => hf here t r h) hstep
      exact ih hnext (fun x hx => hcs x (List.mem_cons_of_mem c hx)) hwalk

theorem components_plain (path : Path) : ∀ c ∈ path.dirs ++ [path.filename], separator ∉ c := by
  intro c hc
  rcases List.mem_append.mp hc with hc | hc
  · exact path.plain c (List.mem_cons_of_mem _ hc)
  · rw [List.mem_singleton.mp hc]
    exact path.plain _ List.mem_cons_self

theorem follow_canonical (depth : ℕ) : ∀ here target r, Canonical fs.kind here →
    follow fs depth here target = .ok r → Canonical fs.kind r := by
  induction depth with
  | zero =>
    intro here target r _ h
    cases h
  | succ depth ih =>
    intro here target r hhere h
    rw [follow] at h
    split at h
    · cases h
    · refine walk_canonical ?_ (components_plain target) ih h
      split
      · exact canonical_root
      · exact hhere

theorem resolve_canonical {path : Path} (h : resolve fs path = .ok ns) : Canonical fs.kind ns := by
  unfold resolve at h
  split at h
  · cases h
  · refine walk_canonical ?_ (components_plain path) (follow_canonical _) h
    unfold start
    split
    · exact canonical_root
    · exact fs.working

theorem canonical_eq_ok {path result : Path} (h : canonical fs path = .ok result) :
    ∃ ns, result = Path.absolute ns ∧ Canonical fs.kind ns := by
  unfold canonical at h
  split at h
  · cases h
  · rename_i ns hresolve
    cases h
    exact ⟨ns,rfl,resolve_canonical hresolve⟩

theorem walk_append (xs ys : List Name) :
    walk fs f here (xs ++ ys) = walk fs f here xs >>= fun next => walk fs f next ys :=
  List.foldlM_append

theorem step_object (hdir : fs.kind here = some .directory) (hn : ProperName n) {k : Kind}
    (hk : fs.kind (here ++ [n]) = some k) (hlink : ∀ target, k ≠ .symlink target) :
    step fs f here n = .ok (here ++ [n]) := by
  rw [step,if_neg (not_not.mpr hdir),if_neg (by simp [hn.nonempty,hn.dot]),if_neg hn.dotDot,hk]
  cases k with
  | symlink target => exact absurd rfl (hlink target)
  | _ => rfl

theorem step_missing (hdir : fs.kind here = some .directory) (hn : ProperName n)
    (hk : fs.kind (here ++ [n]) = none) : step fs f here n = .error .notFound := by
  rw [step,if_neg (not_not.mpr hdir),if_neg (by simp [hn.nonempty,hn.dot]),if_neg hn.dotDot,hk]

theorem walk_of_canonical (h : Canonical fs.kind ns) : walk fs f [] ns = .ok ns := by
  induction ns using List.reverseRecOn with
  | nil => rfl
  | append_singleton ns n ih =>
    obtain ⟨k,hk,hlink⟩ := h.present
    rw [walk_append,ih h.init]
    show step fs f ns n >>= pure = _
    rw [step_object h.directory (h.proper n (by simp)) hk hlink]
    rfl

theorem locate_of_canonical (h : Canonical fs.kind ns) : locate fs ns = .ok ns := walk_of_canonical h

theorem canonical_of_locate (hns : ∀ n ∈ ns, ProperName n) (h : locate fs ns = .ok ms) :
    Canonical fs.kind ms :=
  walk_canonical canonical_root (fun n hn => (hns n hn).separator) (follow_canonical _) h

theorem locate_snoc (h : locate fs ns = .ok here) :
    locate fs (ns ++ [n]) = step fs (follow fs fs.linkDepth) here n := by
  unfold locate at h ⊢
  rw [walk_append,h]
  show step fs (follow fs fs.linkDepth) here n >>= pure = _
  cases step fs (follow fs fs.linkDepth) here n <;> rfl

/-- Names go on from the object they have led to. -/
theorem locate_through (hcanonical : Canonical fs.kind here) (h : locate fs ns = .ok here)
    (ms : List Name) : locate fs (ns ++ ms) = locate fs (here ++ ms) := by
  have hhere := locate_of_canonical hcanonical
  unfold locate at h hhere ⊢
  rw [walk_append,walk_append,h,hhere]

theorem absolute_not_empty (hns : ∀ n ∈ ns, ProperName n) : (Path.absolute ns).isEmpty = false := by
  simp [Path.isEmpty,(Path.absolute_spec hns).1]

theorem start_absolute (hns : ∀ n ∈ ns, ProperName n) : start fs (Path.absolute ns) = [] := by
  simp [start,(Path.absolute_spec hns).1]

theorem absolute_components (hns : ∀ x ∈ ns ++ [n], ProperName x) :
    (Path.absolute (ns ++ [n])).dirs = ns ∧ (Path.absolute (ns ++ [n])).filename = n := by
  have hinit : ∀ x ∈ ns, ProperName x := fun x hx => hns x (List.mem_append_left _ hx)
  rw [Path.absolute_snoc]
  obtain ⟨-,hdirs,hfilename⟩ := Path.append_plain (p := Path.absolute ns) (hns n (by simp)).separator
  exact ⟨hdirs.trans (Path.absolute_spec hinit).2.1,hfilename⟩

theorem resolve_absolute (hns : ∀ n ∈ ns, ProperName n) :
    resolve fs (Path.absolute ns) = locate fs ns := by
  rw [resolve,if_neg (by simp [absolute_not_empty hns]),start_absolute hns,locate]
  cases ns using List.reverseRecOn with
  | nil =>
    -- the path of no names is the root with an empty filename, which stays at the root
    show step fs (follow fs fs.linkDepth) [] [] >>= pure = _
    rw [step,if_neg (by simp [fs.root]),if_pos (by simp)]
    rfl
  | append_singleton ns n => rw [(absolute_components hns).1,(absolute_components hns).2]

theorem canonical_absolute (hns : ∀ n ∈ ns, ProperName n) (h : locate fs ns = .ok ms) :
    canonical fs (Path.absolute ns) = .ok (Path.absolute ms) := by
  rw [canonical,resolve_absolute hns,h]

theorem isDirectory_absolute (h : Canonical fs.kind ns) :
    isDirectory fs (Path.absolute ns) = true ↔ fs.kind ns = some .directory := by
  rw [isDirectory,resolve_absolute h.proper,locate_of_canonical h]
  simp

theorem equivalent_absolute (hns : Canonical fs.kind ns) (hms : Canonical fs.kind ms) :
    equivalent fs (Path.absolute ns) (Path.absolute ms) = .ok (decide (ns = ms)) := by
  rw [equivalent,resolve_absolute hns.proper,resolve_absolute hms.proper,locate_of_canonical hns,
    locate_of_canonical hms]

theorem symlinkStatus_absolute (hns : ∀ x ∈ ns ++ [n], ProperName x) (h : locate fs ns = .ok here) :
    symlinkStatus fs (Path.absolute (ns ++ [n])) = status fs here n := by
  have hempty := absolute_not_empty hns
  obtain ⟨hdirs,hfilename⟩ := absolute_components hns
  unfold locate at h
  rw [symlinkStatus,if_neg (by simp [hempty]),start_absolute hns,hdirs,hfilename,h]

theorem symlinkStatus_error (hns : ∀ x ∈ ns ++ [n], ProperName x) {e : PathError}
    (h : locate fs ns = .error e) : symlinkStatus fs (Path.absolute (ns ++ [n])) = .error e := by
  have hempty := absolute_not_empty hns
  obtain ⟨hdirs,hfilename⟩ := absolute_components hns
  unfold locate at h
  rw [symlinkStatus,if_neg (by simp [hempty]),start_absolute hns,hdirs,h]

theorem symlinkStatus_through (hcanonical : Canonical fs.kind here) (h : locate fs ns = .ok here)
    (hns : ∀ x ∈ ns ++ ms, ProperName x) (hms : ms ≠ []) :
    symlinkStatus fs (Path.absolute (ns ++ ms)) = symlinkStatus fs (Path.absolute (here ++ ms)) := by
  cases ms using List.reverseRecOn with
  | nil => exact absurd rfl hms
  | append_singleton ms m =>
    have hhere : ∀ x ∈ here ++ (ms ++ [m]), ProperName x := by
      intro x hx
      rcases List.mem_append.mp hx with hx | hx
      · exact hcanonical.proper x hx
      · exact hns x (List.mem_append_right ns hx)
    rw [← List.append_assoc] at hns hhere ⊢
    rw [← List.append_assoc]
    cases hlocate : locate fs (ns ++ ms) with
    | error e =>
      rw [symlinkStatus_error hns hlocate]
      rw [locate_through hcanonical h] at hlocate
      rw [symlinkStatus_error hhere hlocate]
    | ok next =>
      rw [symlinkStatus_absolute hns hlocate]
      rw [locate_through hcanonical h] at hlocate
      rw [symlinkStatus_absolute hhere hlocate]

/-- An object that names lead to without links is no link. -/
theorem symlinkStatus_of_canonical (h : Canonical fs.kind ns) (target : Path) :
    symlinkStatus fs (Path.absolute ns) ≠ .ok (.symlink target) := by
  cases ns using List.reverseRecOn with
  | nil =>
    have hroot : symlinkStatus fs (Path.absolute []) = status fs [] [] := rfl
    rw [hroot,status,if_neg (by simp [fs.root])]
    simp
  | append_singleton ns n =>
    obtain ⟨k,hk,hlink⟩ := h.present
    have hn := h.proper n (by simp)
    rw [symlinkStatus_absolute h.proper (locate_of_canonical h.init),status,
      if_neg (by simp [h.directory]),if_neg (by simp [hn.nonempty,hn.dot,hn.dotDot]),hk]
    simpa using hlink target

theorem locate_missing (hdir : fs.kind here = some .directory) (h : Canonical fs.kind here)
    (hn : ProperName n) (hk : fs.kind (here ++ [n]) = none) (ms : List Name) :
    locate fs (here ++ n :: ms) = .error .notFound := by
  have hsplit : here ++ n :: ms = (here ++ [n]) ++ ms := by simp
  have hmissing : walk fs (follow fs fs.linkDepth) [] (here ++ [n]) = .error .notFound := by
    have := locate_snoc (n := n) (locate_of_canonical h)
    rw [step_missing hdir hn hk] at this
    exact this
  rw [hsplit,locate,walk_append,hmissing]
  rfl

theorem symlinkStatus_missing (hdir : fs.kind here = some .directory) (h : Canonical fs.kind here)
    (hn : ProperName n) (hk : fs.kind (here ++ [n]) = none) (hms : ∀ m ∈ ms, ProperName m) :
    symlinkStatus fs (Path.absolute (here ++ n :: ms)) = .error .notFound := by
  have hproper : ∀ x ∈ here ++ n :: ms, ProperName x := by
    intro x hx
    rcases List.mem_append.mp hx with hx | hx
    · exact h.proper x hx
    · rcases List.mem_cons.mp hx with rfl | hx
      · exact hn
      · exact hms x hx
  cases ms using List.reverseRecOn with
  | nil =>
    rw [symlinkStatus_absolute hproper (locate_of_canonical h),status,if_neg (not_not.mpr hdir),
      if_neg (by simp [hn.nonempty,hn.dot,hn.dotDot]),hk]
  | append_singleton ms m =>
    rw [← List.cons_append,← List.append_assoc] at hproper ⊢
    exact symlinkStatus_error hproper (locate_missing hdir h hn hk ms)

end FileTree
