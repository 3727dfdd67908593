import SpareNode.Http.Transport.RequestBodyIngestor

/-! # The buffered request

`BufferedRequest` parses an accumulating buffer again with every fragment until the
head is there, cuts the buffer at the head and streams everything else into the
ingestor of the body. Erased buffers are empty; growth of the buffer's capacity has no
counterpart.
-/
namespace SpareNode.Http
open Storage

/-- `BufferedRequestError`. -/
inductive BufferedRequestError
  | parse (error : HttpRequestParseError)
  | ingestion (error : RequestBodyIngestionError)
  deriving DecidableEq, Repr

structure BufferedRequest where
  limits : HttpRequestParserLimits
  storagePolicySelector : Option (HttpRequestHead → RequestBodyStoragePolicy) := none
  metadata : Bytes := []
  head : Option HttpRequestHead := none
  ingestor : Option RequestBodyIngestor := none

namespace BufferedRequest

def complete (r : BufferedRequest) : Bool :=
  match r.ingestor with
  | none => false
  | some g => g.complete

/-- `BufferedRequest::request`, defined once the request is complete. A file-backed body
without an artifact is empty. -/
def request (r : BufferedRequest) : Option HttpRequestView :=
  match r.head, r.ingestor with
  | some head, some g =>
    if g.complete then
      match g.completedMemoryBody with
      | some memory => some (head.view memory)
      | none => some (head.view (g.completedArtifact.getD []))
    else none
  | _, _ => none

def feedBody (env : StorageEnvironment) (r : BufferedRequest) (input : Bytes) :
    BufferedRequest × Except BufferedRequestError Unit :=
  match r.ingestor with
  | none => (r,.error (.parse ⟨.incompleteBody,0⟩))
  | some g =>
    match g.feed env input with
    | (g,.error e) => ({ r with ingestor := some g },.error (.ingestion e))
    | (g,.ok _) => ({ r with ingestor := some g },.ok ())

def bodyLimits (limits : HttpRequestParserLimits) (policy : RequestBodyStoragePolicy) :
    HttpRequestParserLimits :=
  if policy.maxBodyBytes ≠ 0 then
    { limits with maxBodyBytes := min limits.maxBodyBytes policy.maxBodyBytes }
  else limits

/-- `BufferedRequest::feed`; the options of the source are the environment. -/
def feed (env : StorageEnvironment) (r : BufferedRequest) (input : Bytes) :
    BufferedRequest × Except BufferedRequestError Unit :=
  if r.head.isSome then r.feedBody env input
  else
    let metadata := r.metadata ++ input
    match parseHttpRequestHead metadata r.limits with
    | .error e => ({ r with metadata := [] },.error (.parse e))
    | .ok none => ({ r with metadata := metadata },.ok ())
    | .ok (some head) =>
      let policy := match r.storagePolicySelector with
        | some select => select head
        | none => {}
      let ingestor := RequestBodyIngestor.create head (bodyLimits r.limits policy) policy.mode
      let result := feedBody env
        { r with metadata := metadata, head := some head, ingestor := some ingestor }
        (metadata.drop head.consumedBytes)
      ({ result.1 with metadata := metadata.take head.consumedBytes },result.2)

def finish (env : StorageEnvironment) (r : BufferedRequest) :
    BufferedRequest × Except BufferedRequestError Unit :=
  match r.ingestor with
  | none => (r,.error (.parse ⟨.incompleteBody,r.metadata.length⟩))
  | some g =>
    match g.finish env with
    | (g,.error e) => ({ r with ingestor := some g },.error (.ingestion e))
    | (g,.ok ()) => ({ r with ingestor := some g },.ok ())

/-- Fragments fed in order up to the first error; once the request is complete, later
fragments are ignored. The result is the request, if there is one yet. -/
def ingest (env : StorageEnvironment) (r : BufferedRequest) :
    List Bytes → Except BufferedRequestError (Option HttpRequestView)
  | [] => .ok r.request
  | fragment :: rest =>
    if r.complete then .ok r.request
    else
      match r.feed env fragment with
      | (_,.error e) => .error e
      | (r,.ok ()) => ingest env r rest

end BufferedRequest
end SpareNode.Http
