import SpareNode.Filesystem.ReportedChanges
import SpareNode.Http.Api.FileDownload
import SpareNode.Http.Api.FilesystemErrorResponse
import SpareNode.Http.Api.ListingTimestamps

/-! # The filesystem handlers

The four operations of a location over HTTP. A handler calls the service and tells what came of it; there is no value
where an exception would leave it. A client that is told of success finds the change made, and one that is told of a
failure finds nothing changed, as long as there is memory for the answer.
-/
namespace SpareNode.Http.Api
open LexicalPath FileTree Filesystem Storage Application Concurrency

section Handlers
variable (date : Bytes)

def statusResponse (status : HttpStatusCode) (body : String) : RouteResult := makeJsonResponse date status body []

def createdBody : String := "\x7b\"status\":\"created\"\x7d"
def deletedBody : String := "\x7b\"status\":\"deleted\"\x7d"

/-- The end of a handler: its answer, or what catches the `std::bad_alloc` of making it. -/
def answered (exhausted : Bool) (detail : ℕ) (answer : Option RouteResult) : Option RouteResult :=
  answer.map fun result => if exhausted then .error ⟨.handlerFailure,detail⟩ else result

/-- `handle_resource`, with what each read of a file meets while its response is sent. -/
def handleResource {fs : Tree} (opened : Tree) (service : FilesystemService) (mimeTypes : MimeTypeRegistry)
    (requestedPath : Bytes) (deadline : Option ℤ) (acquisition : AcquisitionAnswers) (host : DirectoryHost fs)
    (openAnswers : OpenAnswers) (readDeadline : Option ℤ) (answers : ℕ → FileReadAnswers) (exhausted : Bool) :
    Option RouteResult :=
  answered exhausted FilesystemReadErrorCode.resourceAllocationFailed.ctorIdx
    (match (service.read fs opened requestedPath deadline acquisition host openAnswers).result with
    | .error e => makePublicErrorResponse date (readFailure e)
    | .ok (.listing entries) => some (listingResponse date formatTimestamp entries)
    | .ok (.file stream) => some (handleFile date readDeadline answers stream mimeTypes requestedPath))

/-- The three handlers of changes: what the service says, and then the answer. -/
def handleMutation {ε : Type} (failure : ε → Option PublicFailure) (detail : ℕ) (status : HttpStatusCode)
    (body : String) (result : Except ε Unit) (exhausted : Bool) : Option RouteResult :=
  answered exhausted detail
    (match result with
    | .error e => makePublicErrorResponse date (failure e)
    | .ok () => some (statusResponse date status body))

def handleUpload (fs : Tree) (service : FilesystemService) (content : FilesystemUploadContent) (requestedPath : Bytes)
    (answers : UploadAnswers) (exhausted : Bool) : Option RouteResult :=
  handleMutation date uploadFailure FilesystemUploadErrorCode.resourceAllocationFailed.ctorIdx .created createdBody
    (service.upload fs requestedPath content answers).result exhausted

/-- `handle_directory_creation`; `lost` when there is no memory for the path of a created directory. -/
def handleDirectoryCreation (fs : Tree) (service : FilesystemService) (bodySize : ℕ) (requestedPath : Bytes)
    (deadline : Option ℤ) (acquisition : AcquisitionAnswers) (refused : Option Errno) (lost exhausted : Bool) :
    Option RouteResult :=
  handleMutation date directoryCreationFailure FilesystemDirectoryCreationErrorCode.resourceAllocationFailed.ctorIdx
    .created createdBody (service.createDirectory fs requestedPath bodySize deadline acquisition refused lost).result
    exhausted

def handleDeletion (fs : Tree) (service : FilesystemService) (bodySize : ℕ) (requestedPath : Bytes)
    (deadline : Option ℤ) (acquisition : AcquisitionAnswers) (answers : RemovalAnswers) (exhausted : Bool) :
    Option RouteResult :=
  handleMutation date removalFailure FilesystemRemovalErrorCode.resourceAllocationFailed.ctorIdx .ok deletedBody
    (service.remove fs requestedPath bodySize deadline acquisition answers).result exhausted

end Handlers

variable {date : Bytes} {fs opened : Tree} {service : FilesystemService} {requestedPath : Bytes}
variable {deadline : Option ℤ} {acquisition : AcquisitionAnswers}

/-- A failure of the table, with its status and its text. -/
def TellsFailure (date : Bytes) (answered : Option RouteResult) : Prop :=
  ∃ failure ∈ publicFailures, 400 ≤ failure.1.value ∧ answered = some (.ok (publicErrorResponse date failure))

def TellsSuccess (date : Bytes) (status : HttpStatusCode) (body : String) (answered : Option RouteResult) : Prop :=
  ∃ response, answered = some (.ok response) ∧ response.statusCode = status ∧ response.memoryBody = ascii body ∧
    response.headers = [contentTypeHeader] ∧ response.dateValue = date

/-- What the client of a change is told, and what has become of the change. Only memory that runs out behind it,
in the service (`lost`) or at the answer (`exhausted`), keeps a change from being told. -/
inductive Told (date : Bytes) (status : HttpStatusCode) (body : String) (detail : ℕ) (lost exhausted : Bool)
    (changed unchanged : Prop) : Option RouteResult → Prop where
  | success {answer : Option RouteResult} : TellsSuccess date status body answer → changed →
      Told date status body detail lost exhausted changed unchanged answer
  | failure {answer : Option RouteResult} : TellsFailure date answer → unchanged →
      Told date status body detail lost exhausted changed unchanged answer
  | lost : lost = true → changed → Told date status body detail lost exhausted changed unchanged
      (some (.ok (publicErrorResponse date internalError)))
  | exhausted : exhausted = true → changed ∨ unchanged →
      Told date status body detail lost exhausted changed unchanged (some (.error ⟨.handlerFailure,detail⟩))

/-- What a read is answered with, if there is memory for it: a failure, the text of a listing whose entries are of
a file system, or a file of a size that is. -/
def ToldOfRead (date : Bytes) (exhausted : Bool) (result : Except FilesystemReadError (FilesystemReadResource opened))
    (answer : Option RouteResult) : Prop :=
  if exhausted then
    answer = some (.error ⟨.handlerFailure,FilesystemReadErrorCode.resourceAllocationFailed.ctorIdx⟩)
  else
    match result with
    | .error _ => TellsFailure date answer
    | .ok (.listing entries) => (∀ entry ∈ entries, Native entry) → ∃ response, answer = some (.ok response) ∧
        response.statusCode = .ok ∧ response.memoryBody = serializeListing formatTimestamp entries
    | .ok (.file file) => file.size < 2 ^ 63 → ∃ response, answer = some (.ok response) ∧
        response.statusCode = .ok ∧ response.contentLength = file.size

theorem tellsFailure_of_public {failure : Option PublicFailure} (h : ∃ told ∈ publicFailures, failure = some told) :
    TellsFailure date (makePublicErrorResponse date failure) := by
  have hrefused : ∀ told ∈ publicFailures, 400 ≤ told.1.value := by decide
  obtain ⟨told,htold,rfl⟩ := h
  exact ⟨told,htold,hrefused told htold,congrArg some (makeResponse_eq date told htold)⟩

theorem internalErrorResponse_made (date : Bytes) : makePublicErrorResponse date (some internalError) =
    some (.ok (publicErrorResponse date internalError)) := congrArg some (makeResponse_eq date _ (by decide))

theorem statusResponse_tells {status : HttpStatusCode} {body : String} (hrange : 200 ≤ status.value ∧ status.value ≤ 599)
    (hstatus : statusHasNoMessageBody status = false) (hbody : (ascii body).length < 10 ^ 6) :
    TellsSuccess date status body (some (statusResponse date status body)) := by
  rw [statusResponse,makeJsonResponse_ok hrange hstatus hbody (by simp) (by decide) (by simp)]
  exact ⟨_,rfl,rfl,rfl,rfl,rfl⟩

theorem createdResponse_tells : TellsSuccess date .created createdBody (some (statusResponse date .created createdBody)) :=
  statusResponse_tells (by decide) (by decide) (by decide)

theorem deletedResponse_tells : TellsSuccess date .ok deletedBody (some (statusResponse date .ok deletedBody)) :=
  statusResponse_tells (by decide) (by decide) (by decide)

/-- A refused acquisition is told as the operation tells its path, or as one of the accesses is. -/
theorem coordinationError_public {Code Detail : Type} {failure : ServiceError Code Detail → Option PublicFailure}
    {operationFailed coordinationFailed : Code} {invalidDestination : SafePathError → Detail}
    {access : FilesystemResourceAccessError → Detail}
    (hpath : ∀ e, ∃ told ∈ publicFailures, failure ⟨operationFailed,some (invalidDestination e)⟩ = some told)
    (haccess : ∀ e, ∃ told ∈ publicFailures, failure ⟨coordinationFailed,some (access e)⟩ = some told)
    (error : FilesystemResourceAccessError) : ∃ told ∈ publicFailures,
      failure (coordinationError operationFailed coordinationFailed invalidDestination access error) = some told := by
  unfold coordinationError
  split
  · exact hpath _
  · exact haccess error

theorem readCoordinationError_public (error : FilesystemResourceAccessError) :
    ∃ told ∈ publicFailures, readFailure (readCoordinationError error) = some told :=
  coordinationError_public (fun _ => ⟨_,publicListingError_public _,rfl⟩) (fun _ => ⟨_,publicAccessError_public _,rfl⟩) error

theorem uploadCoordinationError_public (error : FilesystemResourceAccessError) :
    ∃ told ∈ publicFailures, uploadFailure (uploadCoordinationError error) = some told :=
  coordinationError_public (fun _ => ⟨_,publicFinalizationError_public _,rfl⟩) (fun _ => ⟨_,publicAccessError_public _,rfl⟩) error

theorem creationCoordinationError_public (error : FilesystemResourceAccessError) :
    ∃ told ∈ publicFailures, directoryCreationFailure (creationCoordinationError error) = some told :=
  coordinationError_public (fun _ => ⟨_,publicCreationError_public _,rfl⟩) (fun _ => ⟨_,publicAccessError_public _,rfl⟩) error

theorem removalCoordinationError_public (error : FilesystemResourceAccessError) :
    ∃ told ∈ publicFailures, removalFailure (removalCoordinationError error) = some told :=
  coordinationError_public (fun _ => ⟨_,publicRemovalError_public _,rfl⟩) (fun _ => ⟨_,publicAccessError_public _,rfl⟩) error

theorem forbidden_public : ((.forbidden,"read_forbidden") : PublicFailure) ∈ publicFailures ∧
    ((.forbidden,"write_forbidden") : PublicFailure) ∈ publicFailures ∧
    ((.forbidden,"delete_forbidden") : PublicFailure) ∈ publicFailures := by decide

theorem materialize_public {content : FilesystemUploadContent} {answers : MaterializationAnswers}
    {error : FilesystemUploadError} {temporary : Option Path} (h : materialize content answers = (.error error,temporary)) :
    ∃ told ∈ publicFailures, uploadFailure error = some told := by
  unfold materialize at h
  split at h
  · cases (Prod.mk.inj h).1
  · split at h
    · obtain ⟨herror,-⟩ := Prod.mk.inj h
      cases herror
      exact ⟨(.badRequest,"invalid_upload"),by decide,rfl⟩
    · split at h
      · obtain ⟨herror,-⟩ := Prod.mk.inj h
        cases herror
        exact ⟨_,publicTemporaryFileError_public _,rfl⟩
      · split at h
        · obtain ⟨herror,-⟩ := Prod.mk.inj h
          cases herror
          exact ⟨_,publicTemporaryFileError_public _,rfl⟩
        · split at h
          · obtain ⟨herror,-⟩ := Prod.mk.inj h
            cases herror
            exact ⟨_,publicTemporaryFileError_public _,rfl⟩
          · cases (Prod.mk.inj h).1

/-- Every error of a read has the detail that its code calls for. -/
theorem read_failure {host : DirectoryHost fs} {openAnswers : OpenAnswers} {error : FilesystemReadError}
    (h : (service.read fs opened requestedPath deadline acquisition host openAnswers).result = .error error) :
    ∃ told ∈ publicFailures, readFailure error = some told := by
  revert h
  unfold FilesystemService.read
  split
  · intro h
    cases h
    exact ⟨_,forbidden_public.1,rfl⟩
  · split
    · intro h
      cases h
      exact readCoordinationError_public _
    · split
      · intro h
        cases h
      · split
        · intro h
          cases h
          exact ⟨_,publicListingError_public _,rfl⟩
        · split
          · intro h
            cases h
            exact ⟨_,publicFileReadError_public _,rfl⟩
          · intro h
            cases h

/-- A listing of what a file system holds, or a file, always makes a response. -/
theorem handleResource_told (opened : Tree) (service : FilesystemService) (mimeTypes : MimeTypeRegistry)
    (requestedPath : Bytes) (deadline : Option ℤ) (acquisition : AcquisitionAnswers) (host : DirectoryHost fs)
    (openAnswers : OpenAnswers) (readDeadline : Option ℤ) (answers : ℕ → FileReadAnswers) (exhausted : Bool) :
    ToldOfRead date exhausted (service.read fs opened requestedPath deadline acquisition host openAnswers).result
      (handleResource date opened service mimeTypes requestedPath deadline acquisition host openAnswers readDeadline
        answers exhausted) := by
  unfold handleResource
  cases hread : (service.read fs opened requestedPath deadline acquisition host openAnswers).result with
  | error e =>
    obtain ⟨told,htold,hfailure⟩ := read_failure hread
    cases exhausted with
    | false =>
      have htells : TellsFailure date (makePublicErrorResponse date (readFailure e)) :=
        tellsFailure_of_public ⟨told,htold,hfailure⟩
      dsimp only
      rw [hfailure] at htells ⊢
      exact htells
    | true =>
      dsimp only
      rw [hfailure]
      rfl
  | ok resource =>
    cases exhausted with
    | true => cases resource <;> rfl
    | false =>
      cases resource with
      | listing entries =>
        intro hnative
        obtain ⟨hcount,hlistable⟩ := listDirectory_listable (FilesystemService.read_listing hread)
          formatTimestamp_timestamp
        have hlength := serializeListing_length hlistable hcount hnative
          (fun entry _ => formatTimestamp_length_le entry.modificationTime)
        obtain ⟨response,hresponse,hstatus,hbody⟩ := listingResponse_ok hlength date
        exact ⟨response,congrArg some hresponse,hstatus,hbody⟩
      | file file =>
        intro hsize
        obtain ⟨path,hpath⟩ := handleFile_eq date readDeadline answers file mimeTypes requestedPath
        have hclean := contentTypeForPath_clean mimeTypes path
        obtain ⟨response,hresponse,hstatus,-,hlength,-⟩ :=
          makeFileResponse_ok date readDeadline answers hsize hclean.1 hclean.2
        exact ⟨response,congrArg some (hpath.trans hresponse),hstatus,hlength⟩

/-- The destination of a request has been created, under its own name. -/
def CreatesDestination (fs : Tree) (root : SharedRoot) (request : Bytes) (m : Mutation) : Prop :=
  ∃ safe, SafePath.resolve fs root request = .ok safe ∧ m.change = .created safe.path.filename ∧
    m.names = safe.path.names

/-- The entry of a request has been removed, in the directory that the names before its last one lead to: the object
that the request leads to, or the link under its last name. -/
def RemovesRequested (fs : Tree) (root : SharedRoot) (request : Bytes) (m : Mutation) : Prop :=
  ∃ safe, SafePath.resolve fs root request = .ok safe ∧
    m.change = .unlinked (lexicalDestination root request).filename ∧
    locate fs (lexicalDestination root request).dirs = .ok m.directory ∧
    ((∀ target, fs.kind m.names ≠ some (.symlink target)) → m.names = safe.path.names)

def Publishes (fs : Tree) (root : SharedRoot) (request : Bytes) (mutations : List Mutation) : Prop :=
  ∃ m ∈ mutations, isUploadStageComponent m.change.name = false ∧ CreatesDestination fs root request m

/-- A change is made, with or without the memory to say so, or none is. -/
inductive Outcome {ε : Type} (failure : ε → Option PublicFailure) (lost : Bool) (changed unchanged : Prop) :
    Except ε Unit → Prop where
  | made : changed → Outcome failure lost changed unchanged (.ok ())
  | refused {error : ε} : (∃ told ∈ publicFailures, failure error = some told) → unchanged →
      Outcome failure lost changed unchanged (.error error)
  | lost {error : ε} : lost = true → failure error = some internalError → changed →
      Outcome failure lost changed unchanged (.error error)

theorem Outcome.told {ε : Type} {failure : ε → Option PublicFailure} {lost : Bool} {changed unchanged : Prop}
    {result : Except ε Unit} {status : HttpStatusCode} {body : String} (detail : ℕ) (exhausted : Bool)
    (h : Outcome failure lost changed unchanged result)
    (hsuccess : TellsSuccess date status body (some (statusResponse date status body))) :
    Told date status body detail lost exhausted changed unchanged
      (handleMutation date failure detail status body result exhausted) := by
  cases exhausted with
  | false =>
    cases h with
    | made hchanged => exact .success hsuccess hchanged
    | refused htold hunchanged =>
      have htells : TellsFailure date (makePublicErrorResponse date _) := tellsFailure_of_public htold
      obtain ⟨told,-,hfailure⟩ := htold
      rw [handleMutation,hfailure]
      rw [hfailure] at htells
      exact .failure htells hunchanged
    | lost hlost hfailure hchanged =>
      rw [handleMutation,hfailure,internalErrorResponse_made]
      exact .lost hlost hchanged
  | true =>
    cases h with
    | made hchanged => exact .exhausted rfl (.inl hchanged)
    | refused htold hunchanged =>
      obtain ⟨told,-,hfailure⟩ := htold
      rw [handleMutation,hfailure]
      exact .exhausted rfl (.inr hunchanged)
    | lost hlost hfailure hchanged =>
      rw [handleMutation,hfailure]
      exact .exhausted rfl (.inl hchanged)

/-- An upload that succeeds has published its destination; one that fails has changed reserved names only, unless
memory ran out behind the publication. -/
theorem upload_outcome (fs : Tree) (service : FilesystemService) (requestedPath : Bytes)
    (content : FilesystemUploadContent) (answers : UploadAnswers) :
    Outcome uploadFailure answers.exhausted
      (Publishes fs service.root requestedPath (service.upload fs requestedPath content answers).mutations)
      (∀ m ∈ (service.upload fs requestedPath content answers).mutations, isUploadStageComponent m.change.name = true)
      (service.upload fs requestedPath content answers).result := by
  unfold FilesystemService.upload
  split
  · exact .refused ⟨_,forbidden_public.2.1,rfl⟩ (by simp)
  · split
    · exact .refused (uploadCoordinationError_public _) (by simp)
    · split
      · rename_i e temporary hsource
        exact .refused (materialize_public hsource) (by simp)
      · rename_i source temporary hsource
        rcases finalizeUpload_result fs service.root requestedPath source content.deadline answers.atEntry
          answers.publication answers.exhausted with
          ⟨safe,m,mutations,hfinal,hsafe,hm,hchange,hnames,hname⟩ | ⟨e,mutations,hfinal,hreserved⟩
        · have hpublishes : Publishes fs service.root requestedPath mutations :=
            ⟨m,hm,by rw [hchange]; exact hname,safe,hsafe,hchange,hnames⟩
          rw [hfinal]
          cases hlost : answers.exhausted with
          | false => exact .made hpublishes
          | true => exact .lost rfl rfl hpublishes
        · rw [hfinal]
          exact .refused ⟨_,publicFinalizationError_public e,rfl⟩ hreserved

theorem createDirectory_outcome (fs : Tree) (service : FilesystemService) (requestedPath : Bytes) (contentSize : ℕ)
    (deadline : Option ℤ) (acquisition : AcquisitionAnswers) (refused : Option Errno) (lost : Bool) :
    Outcome directoryCreationFailure lost
      (∃ m, (service.createDirectory fs requestedPath contentSize deadline acquisition refused lost).mutations = [m] ∧
        CreatesDestination fs service.root requestedPath m)
      ((service.createDirectory fs requestedPath contentSize deadline acquisition refused lost).mutations = [])
      (service.createDirectory fs requestedPath contentSize deadline acquisition refused lost).result := by
  unfold FilesystemService.createDirectory
  split
  · exact .refused ⟨_,forbidden_public.2.1,rfl⟩ rfl
  · split
    · exact .refused ⟨(.badRequest,"body_not_allowed"),by decide,rfl⟩ rfl
    · split
      · exact .refused (creationCoordinationError_public _) rfl
      · rcases createDirectory_result fs service.root requestedPath refused lost with
          ⟨safe,m,hcreate,hsafe,hchange,hnames⟩ | ⟨e,hcreate⟩
        · rw [hcreate]
          cases lost with
          | false => exact .made ⟨m,rfl,safe,hsafe,hchange,hnames⟩
          | true => exact .lost rfl rfl ⟨m,rfl,safe,hsafe,hchange,hnames⟩
        · rw [hcreate]
          exact .refused ⟨_,publicCreationError_public e,rfl⟩ rfl

theorem remove_outcome (fs : Tree) (service : FilesystemService) (requestedPath : Bytes) (contentSize : ℕ)
    (deadline : Option ℤ) (acquisition : AcquisitionAnswers) (answers : RemovalAnswers) :
    Outcome removalFailure false
      (∃ m, (service.remove fs requestedPath contentSize deadline acquisition answers).mutations = [m] ∧
        RemovesRequested fs service.root requestedPath m)
      ((service.remove fs requestedPath contentSize deadline acquisition answers).mutations = [])
      (service.remove fs requestedPath contentSize deadline acquisition answers).result := by
  unfold FilesystemService.remove
  split
  · exact .refused ⟨_,forbidden_public.2.2,rfl⟩ rfl
  · split
    · exact .refused ⟨(.badRequest,"body_not_allowed"),by decide,rfl⟩ rfl
    · split
      · exact .refused (removalCoordinationError_public _) rfl
      · rcases removeFilesystemEntry_result fs service.root requestedPath answers with
          ⟨m,hremove,hchange⟩ | ⟨e,hremove⟩
        · obtain ⟨safe,hsafe,-,hparent,hnames⟩ := removeFilesystemEntry_mutations
            (show m ∈ (removeFilesystemEntry fs service.root requestedPath answers).2 by simp [hremove])
          rw [hremove]
          exact .made ⟨m,rfl,safe,hsafe,hchange,hparent,fun hlink => (hnames hlink).symm⟩
        · rw [hremove]
          exact .refused ⟨_,publicRemovalError_public e,rfl⟩ rfl

/-- A client is told of success only when its change has been made: 201 for a published upload and a created
directory, 200 for a removed entry. It is told of a failure of the table when nothing but reserved names has
changed, unless memory ran out behind the change. A read is answered with its failure, its listing or its file. No
handler leaves with an exception, and none with a response that is refused. -/
theorem responses_tell_changes (date : Bytes) (fs opened : Tree) (service : FilesystemService) (requestedPath : Bytes)
    (deadline : Option ℤ) (acquisition : AcquisitionAnswers) (exhausted : Bool) :
    (∀ content answers,
      Told date .created createdBody FilesystemUploadErrorCode.resourceAllocationFailed.ctorIdx answers.exhausted
        exhausted (Publishes fs service.root requestedPath (service.upload fs requestedPath content answers).mutations)
        (∀ m ∈ (service.upload fs requestedPath content answers).mutations,
          isUploadStageComponent m.change.name = true)
        (handleUpload date fs service content requestedPath answers exhausted)) ∧
    (∀ bodySize refused lost,
      Told date .created createdBody FilesystemDirectoryCreationErrorCode.resourceAllocationFailed.ctorIdx lost
        exhausted (∃ m, (service.createDirectory fs requestedPath bodySize deadline acquisition refused lost).mutations = [m] ∧
          CreatesDestination fs service.root requestedPath m)
        ((service.createDirectory fs requestedPath bodySize deadline acquisition refused lost).mutations = [])
        (handleDirectoryCreation date fs service bodySize requestedPath deadline acquisition refused lost exhausted)) ∧
    (∀ bodySize answers,
      Told date .ok deletedBody FilesystemRemovalErrorCode.resourceAllocationFailed.ctorIdx false exhausted
        (∃ m, (service.remove fs requestedPath bodySize deadline acquisition answers).mutations = [m] ∧
          RemovesRequested fs service.root requestedPath m)
        ((service.remove fs requestedPath bodySize deadline acquisition answers).mutations = [])
        (handleDeletion date fs service bodySize requestedPath deadline acquisition answers exhausted)) ∧
    (∀ mimeTypes host openAnswers readDeadline answers,
      ToldOfRead date exhausted (service.read fs opened requestedPath deadline acquisition host openAnswers).result
        (handleResource date opened service mimeTypes requestedPath deadline acquisition host openAnswers readDeadline
          answers exhausted)) := by
  refine ⟨?_,?_,?_,?_⟩
  · intro content answers
    exact (upload_outcome fs service requestedPath content answers).told _ exhausted createdResponse_tells
  · intro bodySize refused lost
    exact (createDirectory_outcome fs service requestedPath bodySize deadline acquisition refused lost).told _
      exhausted createdResponse_tells
  · intro bodySize answers
    exact (remove_outcome fs service requestedPath bodySize deadline acquisition answers).told _ exhausted
      deletedResponse_tells
  · intro mimeTypes host openAnswers readDeadline answers
    exact handleResource_told opened service mimeTypes requestedPath deadline acquisition host openAnswers
      readDeadline answers exhausted

end SpareNode.Http.Api
