import SpareNode.Filesystem.ConfinedDirectory
import SpareNode.Library.SortedSearch

/-! # Directory listings

`list_directory` on a fixed tree of files. The host gives the entries of a directory in an
order of its own, and may fail on the way. Each entry is listed if the request for it is safe
and its metadata can be read inside the root; the request is the one for the directory,
joined with the percent-encoded name.
-/
namespace SpareNode.Filesystem
open LexicalPath FileTree

inductive DirectoryEntryType where
  | regularFile | directory | symbolicLink | other
deriving DecidableEq, Repr

structure DirectoryListingEntry where
  name : Bytes
  type : DirectoryEntryType
  size : Option ℕ
  modificationTime : ℤ
deriving DecidableEq, Repr

inductive DirectoryListingErrorCode where
  | invalidPath | notFound | notDirectory | permissionDenied | tooManyEntries | filesystemFailure
  | resourceAllocationFailed
deriving DecidableEq, Repr

structure DirectoryListingError where
  code : DirectoryListingErrorCode
  systemError : Option Errno
  pathError : Option SafePathErrorCode
deriving DecidableEq, Repr

def maximumDirectoryListingEntries : ℕ := 512

/-- What iterating over a directory yields, `.` and `..` left out. A failure ends it early. -/
structure Iteration (fs : Tree) (directory : List Name) where
  order : List Name
  nodup : order.Nodup
  entries : ∀ n ∈ order, ProperName n ∧ fs.kind (directory ++ [n]) ≠ none
  failure : Option Errno
  complete : failure = none → ∀ n, ProperName n → fs.kind (directory ++ [n]) ≠ none → n ∈ order

structure DirectoryHost (fs : Tree) where
  iterate : (directory : List Name) → Iteration fs directory
  attributes : List Name → Attributes

def filesystemError (error : Errno) : DirectoryListingError :=
  match error with
  | .noEntry => ⟨.notFound,some error,none⟩
  | .accessDenied => ⟨.permissionDenied,some error,none⟩
  | _ => ⟨.filesystemFailure,some error,none⟩

def isUnreserved (byte : Byte) : Bool :=
  (char 'A' ≤ byte && byte ≤ char 'Z') || (char 'a' ≤ byte && byte ≤ char 'z') ||
    (char '0' ≤ byte && byte ≤ char '9') || byte = char '-' || byte = char '.' || byte = char '_' ||
    byte = char '~'

def hexadecimal (digit : ℕ) : Byte := (ascii "0123456789ABCDEF").getD digit 0

def encodePathComponent (component : Bytes) : Bytes :=
  component.flatMap fun byte =>
    if isUnreserved byte then [byte]
    else [char '%',hexadecimal (byte.toNat >>> 4),hexadecimal (byte.toNat &&& 0x0F)]

def childRequest (parent encodedName : Bytes) : Bytes :=
  if parent ≠ [] ∧ parent.getLast? ≠ some (char '/') ∧ parent.getLast? ≠ some (char '\\') then
    parent ++ [char '/'] ++ encodedName
  else parent ++ encodedName

namespace DirectoryListing

def classifyEntry : ConfinedEntryKind → DirectoryEntryType
  | .regularFile => .regularFile
  | .directory => .directory
  | .symbolicLink => .symbolicLink
  | .other => .other

end DirectoryListing

variable {fs : Tree} (host : DirectoryHost fs) (sharedRoot : SharedRoot) (requestedPath : Bytes)

variable (fs) in
def resolveDirectory : Except DirectoryListingError SafePath :=
  match SafePath.resolve fs sharedRoot requestedPath with
  | .error e => .error ⟨.invalidPath,none,some e.code⟩
  | .ok directory =>
    match resolve fs directory.path with
    | .error e => .error (filesystemError e.errno)
    | .ok ns =>
      match fs.kind ns with
      | none => .error ⟨.notFound,none,none⟩
      | some .directory => .ok directory
      | some _ => .error ⟨.notDirectory,none,none⟩

/-- A native name is its own UTF-8 text on POSIX; what is not UTF-8 is no safe request. -/
def readEntry (directory : ConfinedDirectory fs) (name : Name) : Option DirectoryListingEntry :=
  match SafePath.resolve fs sharedRoot (childRequest requestedPath (encodePathComponent name)) with
  | .error _ => none
  | .ok _ =>
    match readConfinedDirectoryEntry host.attributes directory name with
    | none => none
    | some stable =>
      some ⟨name,DirectoryListing.classifyEntry stable.kind,stable.size,stable.modificationTime⟩

def collectLoop (directory : ConfinedDirectory fs) (failure : Option Errno) :
    List Name → (inspectedEntries : ℕ) → List DirectoryListingEntry →
    Except DirectoryListingError (List DirectoryListingEntry)
  | [],_,entries =>
    match failure with
    | some error => .error (filesystemError error)
    | none => .ok entries
  | name :: rest,inspectedEntries,entries =>
    if maximumDirectoryListingEntries < inspectedEntries + 1 then .error ⟨.tooManyEntries,none,none⟩
    else
      match readEntry host sharedRoot requestedPath directory name with
      | none => collectLoop directory failure rest (inspectedEntries + 1) entries
      | some entry => collectLoop directory failure rest (inspectedEntries + 1) (entries ++ [entry])

/-- `std::ranges::sort(entries, {}, &DirectoryListingEntry::name)`. -/
def sortEntries (entries : List DirectoryListingEntry) : List DirectoryListingEntry :=
  entries.mergeSort (fun left right => decide (left.name ≤ right.name))

def collectEntries (directory : SafePath) : Except DirectoryListingError (List DirectoryListingEntry) :=
  match openConfinedDirectory fs sharedRoot.path directory.path with
  | .error e => .error (filesystemError e)
  | .ok confinedDirectory =>
    match resolve fs directory.path with
    | .error e => .error (filesystemError e.errno)
    | .ok ns =>
      match collectLoop host sharedRoot requestedPath confinedDirectory (host.iterate ns).failure
        (host.iterate ns).order 0 [] with
      | .error e => .error e
      | .ok entries => .ok (sortEntries entries)

def listDirectory : Except DirectoryListingError (List DirectoryListingEntry) :=
  match resolveDirectory fs sharedRoot requestedPath with
  | .error e => .error e
  | .ok directory => collectEntries host sharedRoot requestedPath directory

variable {host sharedRoot requestedPath}
variable {confined : ConfinedDirectory fs} {n : Name} {entry : DirectoryListingEntry}
variable {entries result : List DirectoryListingEntry}

theorem readEntry_eq_some_iff : readEntry host sharedRoot requestedPath confined n = some entry ↔
    ∃ safe stable, SafePath.resolve fs sharedRoot
        (childRequest requestedPath (encodePathComponent n)) = .ok safe ∧
      readConfinedDirectoryEntry host.attributes confined n = some stable ∧
      entry = ⟨n,DirectoryListing.classifyEntry stable.kind,stable.size,stable.modificationTime⟩ := by
  unfold readEntry
  constructor
  · intro h
    split at h
    · cases h
    · rename_i safe hsafe
      split at h
      · cases h
      · rename_i stable hstable
        cases h
        exact ⟨safe,stable,hsafe,hstable,rfl⟩
  · rintro ⟨safe,stable,hsafe,hstable,rfl⟩
    rw [hsafe]
    dsimp only
    rw [hstable]

theorem readEntry_name (h : readEntry host sharedRoot requestedPath confined n = some entry) :
    entry.name = n := by
  obtain ⟨-,-,-,-,rfl⟩ := readEntry_eq_some_iff.mp h
  rfl

/-- The loop ends well on at most so many entries, and keeps those that can be read. -/
theorem collectLoop_eq_ok {failure : Option Errno} {order : List Name} {inspected : ℕ}
    (h : collectLoop host sharedRoot requestedPath confined failure order inspected entries = .ok result) :
    failure = none ∧ result = entries ++ order.filterMap (readEntry host sharedRoot requestedPath confined) := by
  induction order generalizing inspected entries with
  | nil =>
    unfold collectLoop at h
    split at h <;> cases h
    exact ⟨rfl,by simp⟩
  | cons n order ih =>
    rw [collectLoop] at h
    split at h
    · cases h
    · cases hread : readEntry host sharedRoot requestedPath confined n with
      | none =>
        rw [hread] at h
        rw [List.filterMap_cons_none hread]
        exact ih h
      | some entry =>
        rw [hread] at h
        rw [List.filterMap_cons_some hread]
        obtain ⟨hfailure,hresult⟩ := ih h
        exact ⟨hfailure,by rw [hresult]; simp⟩

/-- The loop keeps no more entries than it may inspect. -/
theorem collectLoop_length {failure : Option Errno} {order : List Name} {inspected : ℕ}
    (h : collectLoop host sharedRoot requestedPath confined failure order inspected entries = .ok result)
    (hkept : entries.length ≤ inspected) (hlimit : inspected ≤ maximumDirectoryListingEntries) :
    result.length ≤ maximumDirectoryListingEntries := by
  induction order generalizing inspected entries with
  | nil =>
    unfold collectLoop at h
    split at h <;> cases h
    exact hkept.trans hlimit
  | cons n order ih =>
    rw [collectLoop] at h
    split at h
    · cases h
    · rename_i hinspected
      split at h
      · exact ih h (by omega) (by omega)
      · refine ih h ?_ (by omega)
        rw [List.length_append,List.length_singleton]
        omega

theorem listDirectory_length (h : listDirectory host sharedRoot requestedPath = .ok result) :
    result.length ≤ maximumDirectoryListingEntries := by
  unfold listDirectory at h
  split at h
  · cases h
  · unfold collectEntries at h
    split at h
    · cases h
    · split at h
      · cases h
      · split at h
        · cases h
        · rename_i kept hloop
          cases h
          rw [sortEntries,List.length_mergeSort]
          exact collectLoop_length hloop (Nat.le_refl 0) (Nat.zero_le _)

theorem mem_sortEntries : entry ∈ sortEntries entries ↔ entry ∈ entries := List.mem_mergeSort

theorem sortEntries_increasing (h : (entries.map DirectoryListingEntry.name).Nodup) :
    (sortEntries entries).Pairwise (fun left right => left.name < right.name) :=
  SortedSearch.mergeSort_increasing h

theorem readEntry_nodup {order : List Name} (h : order.Nodup) :
    ((order.filterMap (readEntry host sharedRoot requestedPath confined)).map
      DirectoryListingEntry.name).Nodup := by
  induction order with
  | nil => simp
  | cons n order ih =>
    obtain ⟨hn,horder⟩ := List.nodup_cons.mp h
    cases hread : readEntry host sharedRoot requestedPath confined n with
    | none =>
      rw [List.filterMap_cons_none hread]
      exact ih horder
    | some entry =>
      rw [List.filterMap_cons_some hread,List.map_cons,List.nodup_cons]
      refine ⟨?_,ih horder⟩
      intro hmem
      obtain ⟨other,hother,hname⟩ := List.mem_map.mp hmem
      obtain ⟨m,hm,hreadm⟩ := List.mem_filterMap.mp hother
      rw [readEntry_name hread,readEntry_name hreadm] at hname
      exact hn (hname ▸ hm)

end SpareNode.Filesystem
