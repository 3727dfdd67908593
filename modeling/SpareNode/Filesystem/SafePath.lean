import SpareNode.Filesystem.PathRequest
import SpareNode.Foundation.Utf8
import SpareNode.Library.FileTree

/-! # Safe paths

`SharedRoot::create` and `SafePath::resolve` of the POSIX build, on a fixed tree of files. A
request is decoded, checked as text, normalised lexically below the root and then resolved
one component at a time: each prefix that exists is replaced by its canonical path, which
must stay inside the root, and what follows the first missing component is kept as it is.
-/
namespace SpareNode.Filesystem
open LexicalPath FileTree

inductive SharedRootErrorCode where
  | emptyPath | notFound | notDirectory | canonicalizationFailed
deriving DecidableEq, Repr

structure SharedRootError where
  code : SharedRootErrorCode
  inputPath : Path
  systemError : Option PathError
deriving DecidableEq

/-- A shared root holds what `canonical` returns: an absolute path without dots. -/
structure SharedRoot where
  path : Path
  proper : ∀ n ∈ path.names, ProperName n
  absolute : path = Path.absolute path.names

def SharedRoot.names (root : SharedRoot) : List Name := root.path.names

def SharedRoot.ofNames (ns : List Name) (proper : ∀ n ∈ ns, ProperName n) : SharedRoot where
  path := Path.absolute ns
  proper := by
    rw [(Path.absolute_spec proper).2.1]
    exact proper
  absolute := by rw [(Path.absolute_spec proper).2.1]

variable (fs : Tree)

def SharedRoot.create (inputPath : Path) : Except SharedRootError SharedRoot :=
  if inputPath.isEmpty then .error ⟨.emptyPath,inputPath,none⟩
  else
    match h : FileTree.resolve fs inputPath with
    | .error .notFound => .error ⟨.notFound,inputPath,some .notFound⟩
    | .error e => .error ⟨.canonicalizationFailed,inputPath,some e⟩
    | .ok ns =>
      if isDirectory fs (Path.absolute ns) then .ok (SharedRoot.ofNames ns (resolve_canonical h).proper)
      else .error ⟨.notDirectory,inputPath,none⟩

inductive SafePathErrorCode where
  | pathTooLong | invalidPercentEncoding | invalidEncoding | embeddedNull | rootedPath
  | invalidComponent | outsideSharedRoot | resolutionFailed | unsupportedReparsePoint
deriving DecidableEq, Repr

structure SafePathError where
  code : SafePathErrorCode
  requestedPath : Bytes
deriving DecidableEq, Repr

structure SafePath where
  path : Path
deriving DecidableEq

def maximumRequestedPathBytes : ℕ := 4096

def uploadStagePrefix : Bytes := ascii ".sparenode-upload-"

def isUploadStageComponent (component : Name) : Bool := uploadStagePrefix.isPrefixOf component

/-- The loop of `is_within_root` over the components of both paths. -/
def startsWithComponents : List Name → List Name → Bool
  | _,[] => true
  | [],_ :: _ => false
  | c :: candidate,r :: root => c = r && startsWithComponents candidate root

def isWithinRoot (candidate root : Path) : Bool := startsWithComponents candidate.elements root.elements

def resolveExistingPath (path : Path) : Except SafePathErrorCode Path :=
  match canonical fs path with
  | .error _ => .error .resolutionFailed
  | .ok result => .ok result

def recheckRoot (sharedRoot : SharedRoot) : Except SafePathErrorCode Path :=
  match resolveExistingPath fs sharedRoot.path with
  | .error e => .error e
  | .ok resolved =>
    if !isWithinRoot resolved sharedRoot.path || !isWithinRoot sharedRoot.path resolved then
      .error .outsideSharedRoot
    else if !isDirectory fs resolved then .error .resolutionFailed
    else .ok resolved

/-- The loop of `resolve_existing_prefixes`. -/
def resolveComponents (canonicalRoot : Path) :
    List Name → (resolved : Path) → (missingSuffix : Bool) → Except SafePathErrorCode Path
  | [],resolved,_ => .ok resolved
  | component :: rest,resolved,missingSuffix =>
    if component.isEmpty || component = dot then resolveComponents canonicalRoot rest resolved missingSuffix
    else if !missingSuffix && !isDirectory fs resolved then .error .resolutionFailed
    else if missingSuffix then
      resolveComponents canonicalRoot rest (resolved.append (Path.ofText component)) true
    else
      match symlinkStatus fs (resolved.append (Path.ofText component)) with
      | .error .notFound =>
        resolveComponents canonicalRoot rest (resolved.append (Path.ofText component)) true
      | .error _ => .error .resolutionFailed
      | .ok _ =>
        match resolveExistingPath fs (resolved.append (Path.ofText component)) with
        | .error e => .error e
        | .ok inspected =>
          if !isWithinRoot inspected canonicalRoot then .error .outsideSharedRoot
          else resolveComponents canonicalRoot rest inspected false

def resolveExistingPrefixes (candidate : Path) (sharedRoot : SharedRoot) : Except SafePathErrorCode Path :=
  match recheckRoot fs sharedRoot with
  | .error e => .error e
  | .ok canonicalRoot =>
    resolveComponents fs canonicalRoot (candidate.lexicallyRelative sharedRoot.path).elements
      canonicalRoot false

def hasPortableRoot (normalizedRequest : Bytes) : Bool :=
  match normalizedRequest with
  | [] => false
  | first :: rest =>
    first = char '/' ||
      (((char 'A' ≤ first && first ≤ char 'Z') || (char 'a' ≤ first && first ≤ char 'z')) &&
        rest.head? = some (char ':'))

/-- The decoded request, normalised and joined to the root. -/
def normalizedCandidate (sharedRoot : SharedRoot) (normalizedRequest : Bytes) : Path :=
  let normalizedRelativePath := (Path.ofText normalizedRequest).lexicallyNormal
  if normalizedRelativePath.isEmpty || normalizedRelativePath = Path.ofText dot then sharedRoot.path
  else (sharedRoot.path.append normalizedRelativePath).lexicallyNormal

/-- The part of `SafePath::resolve` that is decided by the text of the request. -/
def lexicalCandidate (sharedRoot : SharedRoot) (requestedPath : Bytes) : Except SafePathError Path :=
  if maximumRequestedPathBytes < requestedPath.length then .error ⟨.pathTooLong,[]⟩
  else
    match decodePathRequest requestedPath with
    | .error _ => .error ⟨.invalidPercentEncoding,requestedPath⟩
    | .ok normalizedRequest =>
      if !Utf8.isValid normalizedRequest then .error ⟨.invalidEncoding,requestedPath⟩
      else if (find 0 normalizedRequest).isSome then .error ⟨.embeddedNull,requestedPath⟩
      else if hasPortableRoot normalizedRequest then .error ⟨.rootedPath,requestedPath⟩
      else
        let relativePath := Path.ofText normalizedRequest
        if relativePath.rooted then .error ⟨.rootedPath,requestedPath⟩
        else if relativePath.lexicallyNormal.elements.any isUploadStageComponent then
          .error ⟨.invalidComponent,requestedPath⟩
        else
          let resolvedPath := normalizedCandidate sharedRoot normalizedRequest
          if !isWithinRoot resolvedPath sharedRoot.path then .error ⟨.outsideSharedRoot,requestedPath⟩
          else .ok resolvedPath

def SafePath.resolve (sharedRoot : SharedRoot) (requestedPath : Bytes) : Except SafePathError SafePath :=
  match lexicalCandidate sharedRoot requestedPath with
  | .error e => .error e
  | .ok resolvedPath =>
    match resolveExistingPrefixes fs resolvedPath sharedRoot with
    | .error code => .error ⟨code,requestedPath⟩
    | .ok confinedPath =>
      if (confinedPath.lexicallyRelative sharedRoot.path).elements.any isUploadStageComponent then
        .error ⟨.invalidComponent,requestedPath⟩
      else .ok ⟨confinedPath⟩

end SpareNode.Filesystem
