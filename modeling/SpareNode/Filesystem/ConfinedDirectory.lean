import SpareNode.Filesystem.SafePathConfinement
import SpareNode.Library.DirectoryHandle

/-! # Confined directories

`open_confined_directory` and `read_confined_directory_entry` of the Linux build. Root and
directory are held open, and what the system reports for the directory lies inside what it
reports for the root. Entries are read through the handle, and the target of an entry must
lie inside the root as well.
-/
namespace SpareNode.Filesystem
open LexicalPath FileTree

variable {fs : Tree}

/-- `descriptor_path`, normalised as the code does. -/
def descriptorPath (handle : DirectoryHandle fs) : Path := handle.reported.lexicallyNormal

theorem descriptorPath_eq (handle : DirectoryHandle fs) :
    descriptorPath handle = Path.absolute handle.names :=
  Path.lexicallyNormal_absolute handle.canonical.proper

/-- The handles that are held for operations on the entries of one directory. -/
structure ConfinedDirectory (fs : Tree) where
  root : DirectoryHandle fs
  directory : DirectoryHandle fs
  within : root.names <+: directory.names

theorem descriptor_within {root directory : DirectoryHandle fs}
    (h : isWithinRoot (descriptorPath directory) (descriptorPath root) = true) :
    root.names <+: directory.names := by
  rw [descriptorPath_eq,descriptorPath_eq] at h
  exact (isWithinRoot_absolute directory.canonical.proper root.canonical.proper).mp h

variable (fs) in
def openConfinedDirectory (sharedRoot directory : Path) : Except Errno (ConfinedDirectory fs) :=
  match openDirectory fs sharedRoot with
  | .error e => .error e
  | .ok root =>
    if descriptorPath root ≠ sharedRoot.lexicallyNormal then .error .notPermitted
    else
      match openDirectory fs directory with
      | .error e => .error e
      | .ok directory =>
        if h : isWithinRoot (descriptorPath directory) (descriptorPath root) then
          .ok ⟨root,directory,descriptor_within h⟩
        else .error .notPermitted

abbrev openConfinedMutationDirectory (fs : Tree) (sharedRoot directory : Path) :
    Except Errno (ConfinedDirectory fs) :=
  openConfinedDirectory fs sharedRoot directory

inductive ConfinedEntryKind where
  | regularFile | directory | symbolicLink | other
deriving DecidableEq, Repr

/-- What `fstat` reports of an object besides being a directory or a link. -/
structure Attributes where
  regular : Bool
  size : ℤ
  modified : ℤ

structure ConfinedEntryMetadata where
  kind : ConfinedEntryKind
  size : Option ℕ
  modificationTime : ℤ
deriving DecidableEq, Repr

def classifyEntry (link target : Kind) (attributes : Attributes) : ConfinedEntryKind :=
  match link,target with
  | .symlink _,_ => .symbolicLink
  | _,.directory => .directory
  | _,_ => if attributes.regular then .regularFile else .other

/-- A native name is a filename: not empty and without separators. -/
def isFilename (nativeName : Name) : Bool := !nativeName.isEmpty && separator ∉ nativeName

/-- The entry opened as a link and as its target, and the names of the target. -/
def openEntry (directory : DirectoryHandle fs) (nativeName : Name) : Option (Kind × Kind × List Name) :=
  match status fs directory.names nativeName with
  | .error _ => none
  | .ok link =>
    match step fs (follow fs fs.linkDepth) directory.names nativeName with
    | .error _ => none
    | .ok target =>
      match fs.kind target with
      | none => none
      | some kind => some (link,kind,target)

def readConfinedDirectoryEntry (attributes : List Name → Attributes) (directory : ConfinedDirectory fs)
    (nativeName : Name) : Option ConfinedEntryMetadata :=
  if !isFilename nativeName then none
  else
    match openEntry directory.directory nativeName with
    | none => none
    | some (link,kind,target) =>
      if !isWithinRoot (Path.absolute target).lexicallyNormal (descriptorPath directory.root) then none
      else if classifyEntry link kind (attributes target) = .regularFile then
        if (attributes target).size < 0 then none
        else some ⟨.regularFile,some (attributes target).size.toNat,(attributes target).modified⟩
      else some ⟨classifyEntry link kind (attributes target),none,(attributes target).modified⟩

variable {root : SharedRoot} {ns : List Name} {n : Name} {confined : ConfinedDirectory fs}

/-- What a confined directory is, when its path consists of names below the directory. -/
theorem openConfinedDirectory_spec (hproper : ∀ x ∈ ns, ProperName x)
    (h : openConfinedDirectory fs root.path (Path.absolute ns) = .ok confined) :
    confined.root.names = root.names ∧ locate fs ns = .ok confined.directory.names := by
  unfold openConfinedDirectory at h
  cases hroot : openDirectory fs root.path with
  | error e =>
    rw [hroot] at h
    cases h
  | ok opened =>
    rw [hroot] at h
    dsimp only at h
    split at h
    · cases h
    · rename_i hsame
      have hnames : opened.names = root.names := by
        have hnormal : descriptorPath opened = root.path.lexicallyNormal := not_not.mp hsame
        rw [descriptorPath_eq,root.absolute,Path.lexicallyNormal_absolute root.proper] at hnormal
        have heq := congrArg Path.names hnormal
        rwa [(Path.absolute_spec opened.canonical.proper).2.1,(Path.absolute_spec root.proper).2.1] at heq
      cases hdirectory : openDirectory fs (Path.absolute ns) with
      | error e =>
        rw [hdirectory] at h
        cases h
      | ok directory =>
        rw [hdirectory] at h
        dsimp only at h
        split at h
        · cases h
          exact ⟨hnames,locate_of_openDirectory hproper hdirectory⟩
        · cases h

/-- Below a root that is in place, a chain of directories opens as itself. -/
theorem openConfinedDirectory_of_canonical (hroot : Canonical fs.kind root.names)
    (hrootdir : fs.kind root.names = some .directory) (h : Canonical fs.kind ns)
    (hdir : fs.kind ns = some .directory) (hwithin : root.names <+: ns) :
    openConfinedDirectory fs root.path (Path.absolute ns) =
      .ok ⟨⟨root.names,hroot,hrootdir⟩,⟨ns,h,hdir⟩,hwithin⟩ := by
  have hopen : openDirectory fs root.path = .ok ⟨root.names,hroot,hrootdir⟩ := by
    rw [root.absolute]
    exact openDirectory_of_canonical hroot hrootdir
  have hsame : ¬descriptorPath (⟨root.names,hroot,hrootdir⟩ : DirectoryHandle fs) ≠
      root.path.lexicallyNormal := by
    rw [descriptorPath_eq,root.absolute,Path.lexicallyNormal_absolute root.proper]
    exact not_not.mpr rfl
  have hinside : isWithinRoot (descriptorPath (⟨ns,h,hdir⟩ : DirectoryHandle fs))
      (descriptorPath (⟨root.names,hroot,hrootdir⟩ : DirectoryHandle fs)) = true := by
    rw [descriptorPath_eq,descriptorPath_eq]
    exact (isWithinRoot_absolute h.proper root.proper).mpr hwithin
  rw [openConfinedDirectory,hopen]
  dsimp only
  rw [if_neg hsame,openDirectory_of_canonical h hdir]
  dsimp only
  rw [dif_pos hinside]

/-- Metadata comes from an entry whose target lies inside the root. -/
theorem readConfinedDirectoryEntry_spec {attributes : List Name → Attributes}
    {metadata : ConfinedEntryMetadata} (hn : ProperName n)
    (h : readConfinedDirectoryEntry attributes confined n = some metadata) :
    ∃ link target, fs.kind (confined.directory.names ++ [n]) = some link ∧
      locate fs (confined.directory.names ++ [n]) = .ok target ∧ confined.root.names <+: target := by
  unfold readConfinedDirectoryEntry at h
  split at h
  · cases h
  · split at h
    · cases h
    · rename_i link kind target hopen
      split at h
      · cases h
      · rename_i hwithin
        have hdir := confined.directory.directory
        have hcanonical := confined.directory.canonical
        unfold openEntry at hopen
        rw [status,if_neg (not_not.mpr hdir),if_neg (by simp [hn.nonempty,hn.dot,hn.dotDot])] at hopen
        cases hkind : fs.kind (confined.directory.names ++ [n]) with
        | none =>
          rw [hkind] at hopen
          cases hopen
        | some found =>
          rw [hkind] at hopen
          dsimp only at hopen
          split at hopen
          · cases hopen
          · rename_i reached hstep
            split at hopen
            · cases hopen
            · cases hopen
              have hlocate : locate fs (confined.directory.names ++ [n]) = .ok target :=
                (locate_snoc (locate_of_canonical hcanonical)).trans hstep
              have hproper : ∀ x ∈ confined.directory.names ++ [n], ProperName x := by
                intro x hx
                rcases List.mem_append.mp hx with hx | hx
                · exact hcanonical.proper x hx
                · rw [List.mem_singleton.mp hx]
                  exact hn
              have htarget := (canonical_of_locate hproper hlocate).proper
              refine ⟨link,target,rfl,hlocate,?_⟩
              rw [Path.lexicallyNormal_absolute htarget,descriptorPath_eq] at hwithin
              exact (isWithinRoot_absolute htarget confined.root.canonical.proper).mp (by simpa using hwithin)

end SpareNode.Filesystem
