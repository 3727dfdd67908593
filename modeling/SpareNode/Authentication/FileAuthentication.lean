import SpareNode.Authentication.CredentialFile
import SpareNode.Filesystem.SafePathConfinement

/-! # The credential file outside every location

`create_file_authentication_service` of the POSIX build on a fixed tree of files. The
directory of the configured credential path is resolved once; walking up from it must meet no
shared root; the file itself is opened without following a link. Requests come from the other
side, through `SafePath::resolve`, and the two must not meet at the file.
-/
namespace SpareNode.Authentication
open LexicalPath FileTree
open SpareNode.Filesystem

inductive FileAuthenticationErrorCode where
  | cryptographyUnavailable | credentialOpenFailed | credentialNotRegular | credentialIsShared
  | credentialReadFailed | credentialFileTooLarge | malformedCredentialFile | missingOwnerLogin
  | missingOwnerVerifier | invalidOwnerLogin | invalidOwnerVerifier | resourceExhausted
deriving DecidableEq, Repr

/-- What the created service holds of the credential and of its dummy verifier. -/
structure AuthenticationService where
  credential : CredentialRecord
  dummyVerifier : Bytes
deriving DecidableEq

def dummyPassword : Bytes := ascii "SpareNode unknown-login verification"

/-- The directory that `resolve_credential_path` canonicalises. -/
def credentialDirectory (credentialPath : Path) : Path :=
  if credentialPath.parentPath.isEmpty then Path.ofText dot else credentialPath.parentPath

variable (fs : Tree)

def resolveCredentialPath (credentialPath : Path) : Except FileAuthenticationErrorCode Path :=
  match canonical fs (credentialDirectory credentialPath) with
  | .error _ => .error .credentialOpenFailed
  | .ok canonicalParent => .ok (canonicalParent.append (Path.ofText credentialPath.filename))

/-- The walk of `credential_is_shared` from one directory up to the root directory. -/
def meetsRoot (sharedRoot current : Path) : Except FileAuthenticationErrorCode Bool :=
  if current.isEmpty then .ok false
  else
    match equivalent fs current sharedRoot with
    | .error _ => .error .credentialReadFailed
    | .ok true => .ok true
    | .ok false =>
      if _h : current.parentPath = current then .ok false
      else meetsRoot sharedRoot current.parentPath
termination_by current.elements.length
decreasing_by exact Path.parentPath_length _h

def credentialIsShared (resolvedCredentialPath : Path) :
    List SharedRoot → Except FileAuthenticationErrorCode Bool
  | [] => .ok false
  | sharedRoot :: sharedRoots =>
    match meetsRoot fs sharedRoot.path resolvedCredentialPath.parentPath with
    | .error code => .error code
    | .ok true => .ok true
    | .ok false => credentialIsShared resolvedCredentialPath sharedRoots

/-- `read_credential_source`: the last name is opened without following a link, and what was
opened must be a regular file of bounded size. -/
def readCredentialSource (contents : Path → Bytes) (path : Path) :
    Except CredentialProvisioningErrorCode Bytes :=
  match symlinkStatus fs path with
  | .error .tooManyLinks => .error .notRegularFile
  | .error _ => .error .openFailed
  | .ok (.symlink _) => .error .notRegularFile
  | .ok .directory => .error .notRegularFile
  | .ok .regular =>
    if maximumCredentialFileBytes < (contents path).length then .error .fileTooLarge
    else .ok (contents path)

/-- `FileCredentialProvider::load`. -/
def loadCredential (contents : Path → Bytes) (path : Path) (verifier : PasswordVerifier) :
    Except CredentialProvisioningErrorCode CredentialRecord :=
  match readCredentialSource fs contents path with
  | .error code => .error code
  | .ok source => createFromSource source verifier

def mapProvisioningError : CredentialProvisioningErrorCode → FileAuthenticationErrorCode
  | .openFailed => .credentialOpenFailed
  | .notRegularFile => .credentialNotRegular
  | .readFailed => .credentialReadFailed
  | .fileTooLarge => .credentialFileTooLarge
  | .malformedFile => .malformedCredentialFile
  | .missingLogin => .missingOwnerLogin
  | .missingVerifier => .missingOwnerVerifier
  | .invalidLogin => .invalidOwnerLogin
  | .invalidVerifier => .invalidOwnerVerifier
  | .resourceExhausted => .resourceExhausted

def createFileAuthenticationService (contents : Path → Bytes) (credentialPath : Path)
    (sharedRoots : List SharedRoot) (verifier : Option PasswordVerifier) :
    Except FileAuthenticationErrorCode AuthenticationService :=
  match verifier with
  | none => .error .cryptographyUnavailable
  | some verifier =>
    match resolveCredentialPath fs credentialPath with
    | .error code => .error code
    | .ok resolvedPath =>
      match credentialIsShared fs resolvedPath sharedRoots with
      | .error code => .error code
      | .ok true => .error .credentialIsShared
      | .ok false =>
        match loadCredential fs contents resolvedPath verifier with
        | .error code => .error (mapProvisioningError code)
        | .ok credential =>
          match verifier.hash dummyPassword with
          | .error _ => .error .resourceExhausted
          | .ok dummyVerifier => .ok ⟨credential,dummyVerifier⟩

variable {fs}
variable {root : SharedRoot} {sharedRoots : List SharedRoot} {R D : List Name}
  {credentialPath file : Path} {contents : Path → Bytes}

/-- Walking up from a directory meets exactly the roots above it and itself. -/
theorem meetsRoot_absolute (hR : Canonical fs.kind R) (hD : Canonical fs.kind D) :
    meetsRoot fs (Path.absolute R) (Path.absolute D) = .ok (decide (R <+: D)) := by
  induction D using List.reverseRecOn with
  | nil =>
    have hup : (Path.absolute []).parentPath = Path.absolute [] :=
      Path.parentPath_eq_absolute (Path.absolute_spec hD.proper).1 rfl hD.proper
    rw [meetsRoot,if_neg (by simp [absolute_not_empty hD.proper]),equivalent_absolute hD hR]
    by_cases hroot : R = []
    · simp [hroot]
    · simp [hroot,Ne.symm hroot,hup]
  | append_singleton ds d ih =>
    have hparent : (Path.absolute (ds ++ [d])).parentPath = Path.absolute ds :=
      Path.parentPath_eq_absolute (Path.absolute_spec hD.proper).1 (absolute_components hD.proper).1
        hD.init.proper
    have hne : Path.absolute ds ≠ Path.absolute (ds ++ [d]) := by
      intro heq
      have hnames := congrArg Path.names heq
      rw [(Path.absolute_spec hD.init.proper).2.1,(Path.absolute_spec hD.proper).2.1] at hnames
      simp at hnames
    rw [meetsRoot,if_neg (by simp [absolute_not_empty hD.proper]),equivalent_absolute hD hR,hparent,
      dif_neg hne,ih hD.init]
    by_cases hroot : R = ds ++ [d]
    · simp [hroot]
    · simp [hroot,Ne.symm hroot,List.prefix_concat_iff]

theorem credentialIsShared_eq (hroots : ∀ root ∈ sharedRoots, Canonical fs.kind root.names)
    (hD : Canonical fs.kind D) (hparent : file.parentPath = Path.absolute D) :
    credentialIsShared fs file sharedRoots =
      .ok (decide (∃ root ∈ sharedRoots, root.names <+: D)) := by
  induction sharedRoots with
  | nil => simp [credentialIsShared]
  | cons root roots ih =>
    have hrest := ih (fun r hr => hroots r (List.mem_cons_of_mem root hr))
    have hmeets := meetsRoot_absolute (hroots root List.mem_cons_self) hD
    have hpath : root.path = Path.absolute root.names := root.absolute
    rw [credentialIsShared,hparent,hpath,hmeets,hrest]
    by_cases hbelow : root.names <+: D
    · simp [hbelow]
    · simp [hbelow]

/-- The resolved credential path is a name in a canonical directory. -/
theorem resolveCredentialPath_spec (h : resolveCredentialPath fs credentialPath = .ok file) :
    ∃ D, canonical fs (credentialDirectory credentialPath) = .ok (Path.absolute D) ∧
      Canonical fs.kind D ∧ file.rooted = true ∧ file.dirs = D ∧ file.parentPath = Path.absolute D := by
  unfold resolveCredentialPath at h
  split at h
  · cases h
  · rename_i parent hparent
    cases h
    obtain ⟨D,rfl,hD⟩ := canonical_eq_ok hparent
    obtain ⟨hrooted,hnames,-⟩ := Path.absolute_spec hD.proper
    obtain ⟨hr,hdirs,-⟩ := Path.append_plain (p := Path.absolute D)
      (credentialPath.plain _ List.mem_cons_self)
    rw [hrooted] at hr
    rw [hnames] at hdirs
    exact ⟨D,hparent,hD,hr,hdirs,Path.parentPath_eq_absolute hr hdirs hD.proper⟩

/-- A regular file at a rooted path below a canonical directory is at canonical names. -/
theorem canonical_of_regular (hrooted : file.rooted = true) (hdirs : file.dirs = D)
    (hD : Canonical fs.kind D) (hfile : symlinkStatus fs file = .ok .regular) :
    file = Path.absolute (D ++ [file.filename]) ∧ Canonical fs.kind (D ++ [file.filename]) ∧
      fs.kind (D ++ [file.filename]) = some .regular := by
  have hstart : start fs file = [] := by simp [start,hrooted]
  have hwalk : walk fs (follow fs fs.linkDepth) (start fs file) file.dirs = .ok D := by
    rw [hstart,hdirs]
    exact walk_of_canonical hD
  rw [symlinkStatus,if_neg (by simp [Path.isEmpty,hrooted]),hwalk] at hfile
  dsimp only at hfile
  unfold status at hfile
  split at hfile
  · cases hfile
  · rename_i hdir
    split at hfile
    · cases hfile
    · rename_i hdots
      simp only [Bool.or_eq_true,decide_eq_true_eq,not_or] at hdots
      have hname : ProperName file.filename :=
        ⟨hdots.1.1,hdots.1.2,hdots.2,file.plain _ List.mem_cons_self⟩
      split at hfile
      · cases hfile
      · rename_i k hk
        cases hfile
        obtain ⟨habsolute,hnames,-⟩ := Path.absolute_spec hD.proper
        refine ⟨LexicalPath.Path.ext ?_ ?_ ?_,hD.snoc (not_not.mp hdir) hname hk (by simp),hk⟩
        all_goals rw [Path.absolute_snoc]
        all_goals obtain ⟨hr,hd,hf⟩ := Path.append_plain (p := Path.absolute D) hname.separator
        · rw [hr,habsolute,hrooted]
        · rw [hd,hnames,hdirs]
        · rw [hf]

/-- No request to any of the roots resolves to a file. -/
def Unreachable (fs : Tree) (sharedRoots : List SharedRoot) (file : Path) : Prop :=
  ∀ root ∈ sharedRoots, ∀ request safe, SafePath.resolve fs root request = .ok safe →
    safe.path ≠ file ∧ canonical fs safe.path ≠ .ok file

/-- A regular file whose directory is below no root is unreachable. -/
theorem unreachable_of_unshared {n : Name}
    (hroots : ∀ root ∈ sharedRoots, fs.kind root.names = some .directory)
    (hD : ∀ x ∈ D ++ [n], ProperName x) (hfile : fs.kind (D ++ [n]) = some .regular)
    (hunshared : ¬∃ root ∈ sharedRoots, root.names <+: D) :
    Unreachable fs sharedRoots (Path.absolute (D ++ [n])) := by
  intro root hroot request safe hsafe
  have hne : safe.path ≠ Path.absolute (D ++ [n]) := by
    intro heq
    obtain ⟨text,met,missing,E,-,-,hlocated⟩ := resolve_located hsafe
    have hnames := hlocated.pathNames
    rw [heq,(Path.absolute_spec hD).2.1] at hnames
    have hwithin : root.names <+: D ++ [n] :=
      hnames ▸ hlocated.within.trans (List.prefix_append E missing)
    rcases List.prefix_concat_iff.mp hwithin with hself | hbelow
    · -- a root is a directory, so it is not the file itself
      have hdir := hroots root hroot
      rw [hself,hfile] at hdir
      cases hdir
    · exact hunshared ⟨root,hroot,hbelow⟩
  refine ⟨hne,?_⟩
  intro hcanonical
  exact hne (SafePath.canonical_path hsafe hcanonical).symm

theorem mapProvisioningError_ne_shared (code : CredentialProvisioningErrorCode) :
    mapProvisioningError code ≠ .credentialIsShared := by
  cases code <;> decide

theorem readCredentialSource_regular {source : Bytes}
    (h : readCredentialSource fs contents file = .ok source) : symlinkStatus fs file = .ok .regular := by
  unfold readCredentialSource at h
  split at h
  · cases h
  · cases h
  · cases h
  · cases h
  · assumption

theorem createFileAuthenticationService_eq_ok {verifier : Option PasswordVerifier}
    {service : AuthenticationService}
    (h : createFileAuthenticationService fs contents credentialPath sharedRoots verifier = .ok service) :
    ∃ file, resolveCredentialPath fs credentialPath = .ok file ∧
      credentialIsShared fs file sharedRoots = .ok false ∧ symlinkStatus fs file = .ok .regular := by
  unfold createFileAuthenticationService at h
  split at h
  · cases h
  · split at h
    · cases h
    · rename_i file hfile
      split at h
      · cases h
      · cases h
      · rename_i hshared
        refine ⟨file,hfile,hshared,?_⟩
        split at h
        · cases h
        · rename_i credential hload
          unfold loadCredential at hload
          split at hload
          · cases hload
          · rename_i source hsource
            exact readCredentialSource_regular hsource

theorem createFileAuthenticationService_shared_iff {verifier : PasswordVerifier}
    (hchecks : ∀ file, resolveCredentialPath fs credentialPath = .ok file →
      ∃ shared, credentialIsShared fs file sharedRoots = .ok shared) :
    createFileAuthenticationService fs contents credentialPath sharedRoots (some verifier) =
        .error .credentialIsShared ↔
      ∃ file, resolveCredentialPath fs credentialPath = .ok file ∧
        credentialIsShared fs file sharedRoots = .ok true := by
  unfold createFileAuthenticationService
  cases hfile : resolveCredentialPath fs credentialPath with
  | error code =>
    have hopen : code = .credentialOpenFailed := by
      unfold resolveCredentialPath at hfile
      split at hfile
      · cases hfile
        rfl
      · cases hfile
    simp [hopen]
  | ok file =>
    obtain ⟨shared,hshared⟩ := hchecks file hfile
    cases shared with
    | true => simp [hshared]
    | false =>
      cases hload : loadCredential fs contents file verifier with
      | error code => simp [hshared,hload,mapProvisioningError_ne_shared]
      | ok credential => cases hhash : verifier.hash dummyPassword <;> simp [hshared,hload,hhash]

/-- The credential file that passes the check is no request's path, and the check rejects the
files in and below the roots. -/
theorem credential_file_unreachable (fs : Tree) (contents : Path → Bytes) (credentialPath : Path)
    (sharedRoots : List SharedRoot) (verifier : PasswordVerifier)
    (hroots : ∀ root ∈ sharedRoots, ∃ input, SharedRoot.create fs input = .ok root) :
    (∀ file, resolveCredentialPath fs credentialPath = .ok file →
      credentialIsShared fs file sharedRoots = .ok false → symlinkStatus fs file = .ok .regular →
      Unreachable fs sharedRoots file) ∧
    (∀ service, createFileAuthenticationService fs contents credentialPath sharedRoots (some verifier) =
      .ok service → ∃ file, resolveCredentialPath fs credentialPath = .ok file ∧
        symlinkStatus fs file = .ok .regular ∧ Unreachable fs sharedRoots file) ∧
    (createFileAuthenticationService fs contents credentialPath sharedRoots (some verifier) =
        .error .credentialIsShared ↔
      ∃ directory, canonical fs (credentialDirectory credentialPath) = .ok directory ∧
        ∃ root ∈ sharedRoots, root.path.elements <+: directory.elements) := by
  have hcanonical : ∀ root ∈ sharedRoots, Canonical fs.kind root.names := by
    intro root hroot
    obtain ⟨input,hinput⟩ := hroots root hroot
    exact (SharedRoot.create_spec hinput).1
  have hdirectory : ∀ root ∈ sharedRoots, fs.kind root.names = some .directory := by
    intro root hroot
    obtain ⟨input,hinput⟩ := hroots root hroot
    exact (SharedRoot.create_spec hinput).2
  have hunreachable : ∀ file, resolveCredentialPath fs credentialPath = .ok file →
      credentialIsShared fs file sharedRoots = .ok false → symlinkStatus fs file = .ok .regular →
      Unreachable fs sharedRoots file := by
    intro file hfile hshared hregular
    obtain ⟨D,-,hD,hrooted,hdirs,hparent⟩ := resolveCredentialPath_spec hfile
    obtain ⟨heq,hnames,hkind⟩ := canonical_of_regular hrooted hdirs hD hregular
    rw [credentialIsShared_eq hcanonical hD hparent] at hshared
    rw [heq]
    exact unreachable_of_unshared hdirectory hnames.proper hkind (by simpa using hshared)
  refine ⟨hunreachable,?_,?_⟩
  · intro service hservice
    obtain ⟨file,hfile,hshared,hregular⟩ := createFileAuthenticationService_eq_ok hservice
    exact ⟨file,hfile,hregular,hunreachable file hfile hshared hregular⟩
  · have hchecks : ∀ file, resolveCredentialPath fs credentialPath = .ok file →
        ∃ shared, credentialIsShared fs file sharedRoots = .ok shared := by
      intro file hfile
      obtain ⟨D,-,hD,-,-,hparent⟩ := resolveCredentialPath_spec hfile
      exact ⟨_,credentialIsShared_eq hcanonical hD hparent⟩
    rw [createFileAuthenticationService_shared_iff hchecks]
    constructor
    · rintro ⟨file,hfile,hshared⟩
      obtain ⟨D,hdirectory,hD,-,-,hparent⟩ := resolveCredentialPath_spec hfile
      rw [credentialIsShared_eq hcanonical hD hparent] at hshared
      obtain ⟨root,hroot,hbelow⟩ : ∃ root ∈ sharedRoots, root.names <+: D := by simpa using hshared
      refine ⟨Path.absolute D,hdirectory,root,hroot,?_⟩
      rw [root.elements_eq,Path.absolute_elements hD.proper]
      exact List.cons_prefix_cons.mpr ⟨rfl,hbelow⟩
    · rintro ⟨directory,hdirectory,root,hroot,hbelow⟩
      obtain ⟨D,rfl,hD⟩ := canonical_eq_ok hdirectory
      rw [root.elements_eq,Path.absolute_elements hD.proper] at hbelow
      have hfile : resolveCredentialPath fs credentialPath =
          .ok ((Path.absolute D).append (Path.ofText credentialPath.filename)) := by
        rw [resolveCredentialPath,hdirectory]
      obtain ⟨D',hdirectory',hD',-,-,hparent⟩ := resolveCredentialPath_spec hfile
      have hnames := congrArg Path.names (Except.ok.inj (hdirectory.symm.trans hdirectory'))
      rw [(Path.absolute_spec hD.proper).2.1,(Path.absolute_spec hD'.proper).2.1] at hnames
      subst hnames
      refine ⟨_,hfile,?_⟩
      rw [credentialIsShared_eq hcanonical hD hparent]
      have hexists : ∃ root ∈ sharedRoots, root.names <+: D :=
        ⟨root,hroot,(List.cons_prefix_cons.mp hbelow).2⟩
      simpa using hexists

/-- A credential directory that a link below the root and a link beside it lead to. -/
def credentialTree : Tree where
  kind ns :=
    if ns = [] ∨ ns = [ascii "srv"] ∨ ns = [ascii "conf"] then some .directory
    else if ns = [ascii "conf",ascii "credentials.conf"] then some .regular
    else if ns = [ascii "srv",ascii "out"] then some (.symlink (Path.ofText (ascii "../conf")))
    else if ns = [ascii "etc"] then some (.symlink (Path.ofText (ascii "/conf")))
    else none
  root := by decide +kernel
  workingDirectory := []
  working := canonical_nil (by decide +kernel)
  linkDepth := 40

theorem credential_file_unreachable_linked :
    Unreachable credentialTree [linkedRoot] (Path.absolute [ascii "conf",ascii "credentials.conf"]) ∧
    createFileAuthenticationService credentialTree (fun _ => []) (Path.ofText (ascii "etc/../srv/owner"))
      [linkedRoot] (some ⟨fun _ => .ok [],fun _ => true⟩) = .error .credentialIsShared := by
  have hroots : ∀ root ∈ [linkedRoot], ∃ input, SharedRoot.create credentialTree input = .ok root := by
    intro root hroot
    rw [List.mem_singleton.mp hroot]
    exact ⟨Path.ofText (ascii "/srv"),rfl⟩
  have hcanonical : ∀ root ∈ [linkedRoot], Canonical credentialTree.kind root.names := by
    intro root hroot
    obtain ⟨input,hinput⟩ := hroots root hroot
    exact (SharedRoot.create_spec hinput).1
  have hfile : resolveCredentialPath credentialTree (Path.ofText (ascii "/etc/credentials.conf")) =
      .ok (Path.absolute [ascii "conf",ascii "credentials.conf"]) := by decide +kernel
  have hD : Canonical credentialTree.kind [ascii "conf"] := by
    have hresolve : FileTree.resolve credentialTree (Path.ofText (ascii "conf")) = .ok [ascii "conf"] := by
      decide +kernel
    exact resolve_canonical hresolve
  constructor
  · refine (credential_file_unreachable credentialTree (fun _ => [])
      (Path.ofText (ascii "/etc/credentials.conf")) [linkedRoot] ⟨fun _ => .ok [],fun _ => true⟩
      hroots).1 _ hfile ?_ (by decide +kernel)
    rw [credentialIsShared_eq hcanonical hD (by decide +kernel)]
    decide +kernel
  · refine (credential_file_unreachable credentialTree (fun _ => [])
      (Path.ofText (ascii "etc/../srv/owner")) [linkedRoot] ⟨fun _ => .ok [],fun _ => true⟩
      hroots).2.2.mpr ⟨Path.absolute [ascii "srv"],by decide +kernel,linkedRoot,List.mem_cons_self,?_⟩
    decide +kernel

end SpareNode.Authentication
