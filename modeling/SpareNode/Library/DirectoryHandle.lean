import SpareNode.Library.FileTree
import SpareNode.Library.NormalPath

/-! # Directory handles

Opening a directory of a file tree without following its final component. A handle holds the
names that lead to the opened directory without links, which is also the path that the system
reports for it. Entries are looked up below a handle by a single name.
-/
namespace FileTree
open LexicalPath

inductive Errno where
  | noEntry | alreadyExists | notDirectory | isDirectory | notEmpty | accessDenied | notPermitted
  | readOnlySystem | tooManyLinks | other (number : ℕ)
deriving DecidableEq, Repr

def PathError.errno : PathError → Errno
  | .notFound => .noEntry
  | .notDirectory => .notDirectory
  | .tooManyLinks => .tooManyLinks

variable (fs : Tree)

structure DirectoryHandle where
  names : List Name
  canonical : Canonical fs.kind names
  directory : fs.kind names = some .directory

/-- The last step of opening a directory: a link is not followed. -/
def openLast (here : List Name) (filename : Name) : Except Errno (List Name) :=
  if fs.kind here ≠ some .directory then .error .notDirectory
  else if filename = [] || filename = dot then .ok here
  else if filename = dotDot then .ok here.dropLast
  else
    match fs.kind (here ++ [filename]) with
    | none => .error .noEntry
    | some .directory => .ok (here ++ [filename])
    | some _ => .error .notDirectory

/-- `open` with `O_DIRECTORY` and `O_NOFOLLOW`. -/
def openNames (path : Path) : Except Errno (List Name) :=
  if path.isEmpty then .error .noEntry
  else
    match walk fs (follow fs fs.linkDepth) (start fs path) path.dirs with
    | .error e => .error e.errno
    | .ok here => openLast fs here path.filename

variable {fs}
variable {here ns D : List Name} {n : Name} {path : Path}

theorem openLast_spec (h : Canonical fs.kind here) (hn : separator ∉ n) (hopen : openLast fs here n = .ok D) :
    Canonical fs.kind D ∧ fs.kind D = some .directory := by
  unfold openLast at hopen
  split at hopen
  · cases hopen
  · rename_i hdir
    have hdir := not_not.mp hdir
    split at hopen
    · cases hopen
      exact ⟨h,hdir⟩
    · rename_i hdot
      split at hopen
      · cases hopen
        refine ⟨h.dropLast,?_⟩
        cases here using List.reverseRecOn with
        | nil => exact hdir
        | append_singleton ns n =>
          rw [List.dropLast_concat]
          exact h.directory
      · rename_i hdotDot
        have hdots : n ≠ [] ∧ n ≠ dot := by simpa using hdot
        split at hopen
        · cases hopen
        · rename_i hk
          cases hopen
          exact ⟨h.snoc hdir ⟨hdots.1,hdots.2,hdotDot,hn⟩ hk (by simp),hk⟩
        · cases hopen

theorem openNames_spec (h : openNames fs path = .ok D) :
    Canonical fs.kind D ∧ fs.kind D = some .directory := by
  unfold openNames at h
  split at h
  · cases h
  · split at h
    · cases h
    · rename_i here hwalk
      refine openLast_spec ?_ (path.plain _ List.mem_cons_self) h
      refine walk_canonical ?_ (fun c hc => path.plain c (List.mem_cons_of_mem _ hc))
        (follow_canonical _) hwalk
      unfold start
      split
      · exact canonical_root
      · exact fs.working

variable (fs)

def openDirectory (path : Path) : Except Errno (DirectoryHandle fs) :=
  match h : openNames fs path with
  | .error e => .error e
  | .ok ns => .ok ⟨ns,(openNames_spec h).1,(openNames_spec h).2⟩

variable {fs}

/-- The path that the system reports for an opened directory. -/
def DirectoryHandle.reported (handle : DirectoryHandle fs) : Path := Path.absolute handle.names

theorem openDirectory_names {handle : DirectoryHandle fs} (h : openDirectory fs path = .ok handle) :
    openNames fs path = .ok handle.names := by
  unfold openDirectory at h
  split at h
  · cases h
  · rename_i ns hns
    cases h
    exact hns

theorem openNames_snoc (hproper : ∀ x ∈ ns ++ [n], ProperName x) :
    openNames fs (Path.absolute (ns ++ [n])) =
      match locate fs ns with
      | .error e => .error e.errno
      | .ok here => openLast fs here n := by
  rw [openNames,if_neg (by simp [absolute_not_empty hproper]),start_absolute hproper,
    (absolute_components hproper).1,(absolute_components hproper).2]
  rfl

/-- A directory that opens is the object that its names lead to. -/
theorem locate_of_openNames (hproper : ∀ x ∈ ns, ProperName x)
    (h : openNames fs (Path.absolute ns) = .ok D) : locate fs ns = .ok D := by
  cases ns using List.reverseRecOn with
  | nil =>
    have hroot : openNames fs (Path.absolute []) = openLast fs [] [] := rfl
    rw [hroot,openLast,if_neg (by simp [fs.root]),if_pos (by simp)] at h
    cases h
    rfl
  | append_singleton ns n =>
    rw [openNames_snoc hproper] at h
    split at h
    · cases h
    · rename_i here hlocate
      have hn := hproper n (by simp)
      rw [locate_snoc hlocate]
      rw [openLast] at h
      split at h
      · cases h
      · rename_i hdir
        rw [if_neg (by simp [hn.nonempty,hn.dot]),if_neg hn.dotDot] at h
        split at h
        · cases h
        · rename_i hk
          cases h
          exact step_object (not_not.mp hdir) hn hk (by simp)
        · cases h

theorem locate_of_openDirectory {handle : DirectoryHandle fs} (hproper : ∀ x ∈ ns, ProperName x)
    (h : openDirectory fs (Path.absolute ns) = .ok handle) : locate fs ns = .ok handle.names :=
  locate_of_openNames hproper (openDirectory_names h)

theorem openNames_of_canonical (h : Canonical fs.kind ns) (hdir : fs.kind ns = some .directory) :
    openNames fs (Path.absolute ns) = .ok ns := by
  cases ns using List.reverseRecOn with
  | nil =>
    have hroot : openNames fs (Path.absolute []) = openLast fs [] [] := rfl
    rw [hroot,openLast,if_neg (by simp [fs.root]),if_pos (by simp)]
  | append_singleton ns n =>
    have hn := h.proper n (by simp)
    rw [openNames_snoc h.proper,locate_of_canonical h.init]
    dsimp only
    rw [openLast,if_neg (not_not.mpr h.directory),if_neg (by simp [hn.nonempty,hn.dot]),
      if_neg hn.dotDot,hdir]

theorem openDirectory_of_canonical (h : Canonical fs.kind ns) (hdir : fs.kind ns = some .directory) :
    openDirectory fs (Path.absolute ns) = .ok ⟨ns,h,hdir⟩ := by
  have hnames := openNames_of_canonical h hdir
  unfold openDirectory
  split
  · rename_i e he
    rw [hnames] at he
    cases he
  · rename_i ns' hns'
    rw [hnames] at hns'
    cases hns'
    rfl

end FileTree
