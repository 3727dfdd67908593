import SpareNode.Library.DirectoryHandle

/-! # File handles

Opening any object of a file tree without following its final component. A link there is refused;
what is opened is known by the names that lead to it without links.
-/
namespace FileTree
open LexicalPath

variable (fs : Tree)

/-- The last step of opening an object: a link is refused. -/
def openObjectLast (here : List Name) (filename : Name) : Except Errno (List Name) :=
  if fs.kind here ≠ some .directory then .error .notDirectory
  else if filename = [] || filename = dot then .ok here
  else if filename = dotDot then .ok here.dropLast
  else
    match fs.kind (here ++ [filename]) with
    | none => .error .noEntry
    | some (.symlink _) => .error .tooManyLinks
    | some _ => .ok (here ++ [filename])

/-- `open` with `O_NOFOLLOW`. -/
def openObject (path : Path) : Except Errno (List Name) :=
  if path.isEmpty then .error .noEntry
  else
    match walk fs (follow fs fs.linkDepth) (start fs path) path.dirs with
    | .error e => .error e.errno
    | .ok here => openObjectLast fs here path.filename

variable {fs}
variable {here ns D : List Name} {n : Name} {path : Path}

theorem openObjectLast_spec (h : Canonical fs.kind here) (hn : separator ∉ n)
    (hopen : openObjectLast fs here n = .ok D) : Canonical fs.kind D := by
  unfold openObjectLast at hopen
  split at hopen
  · cases hopen
  · rename_i hdir
    have hdir := not_not.mp hdir
    split at hopen
    · cases hopen
      exact h
    · rename_i hdot
      split at hopen
      · cases hopen
        exact h.dropLast
      · rename_i hdotDot
        have hdots : n ≠ [] ∧ n ≠ dot := by simpa using hdot
        split at hopen
        · cases hopen
        · cases hopen
        · rename_i k hlink hk
          cases hopen
          exact h.snoc hdir ⟨hdots.1,hdots.2,hdotDot,hn⟩ hk (fun target htarget => hlink target htarget)

theorem openObject_canonical (h : openObject fs path = .ok D) : Canonical fs.kind D := by
  unfold openObject at h
  split at h
  · cases h
  · split at h
    · cases h
    · rename_i here hwalk
      refine openObjectLast_spec ?_ (path.plain _ List.mem_cons_self) h
      refine walk_canonical ?_ (fun c hc => path.plain c (List.mem_cons_of_mem _ hc)) (follow_canonical _) hwalk
      unfold start
      split
      · exact canonical_root
      · exact fs.working

theorem openObject_snoc (hproper : ∀ x ∈ ns ++ [n], ProperName x) :
    openObject fs (Path.absolute (ns ++ [n])) =
      match locate fs ns with
      | .error e => .error e.errno
      | .ok here => openObjectLast fs here n := by
  rw [openObject,if_neg (by simp [absolute_not_empty hproper]),start_absolute hproper,
    (absolute_components hproper).1,(absolute_components hproper).2]
  rfl

/-- What opens is the object that the names lead to. -/
theorem locate_of_openObject (hproper : ∀ x ∈ ns, ProperName x)
    (h : openObject fs (Path.absolute ns) = .ok D) : locate fs ns = .ok D := by
  cases ns using List.reverseRecOn with
  | nil =>
    have hroot : openObject fs (Path.absolute []) = openObjectLast fs [] [] := rfl
    rw [hroot,openObjectLast,if_neg (by simp [fs.root]),if_pos (by simp)] at h
    cases h
    rfl
  | append_singleton ns n =>
    rw [openObject_snoc hproper] at h
    split at h
    · cases h
    · rename_i here hlocate
      have hn := hproper n (by simp)
      rw [locate_snoc hlocate]
      rw [openObjectLast] at h
      split at h
      · cases h
      · rename_i hdir
        rw [if_neg (by simp [hn.nonempty,hn.dot]),if_neg hn.dotDot] at h
        split at h
        · cases h
        · cases h
        · rename_i k hlink hk
          cases h
          exact step_object (not_not.mp hdir) hn hk hlink

end FileTree
