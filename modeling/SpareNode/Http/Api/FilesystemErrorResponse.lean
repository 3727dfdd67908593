import SpareNode.Application.FilesystemRead
import SpareNode.Http.Api.JsonResponse
import SpareNode.Http.Api.JsonWriter

/-! # Public errors

What a failed operation on the filesystem tells its client: a status and an identifier from a fixed table. A path
that leaves the root, or that cannot be resolved, is answered like one that does not exist. An error whose detail does
not belong to its code makes `std::get` throw, for which there is no value.
-/
namespace SpareNode.Http.Api
open Filesystem Storage Application

abbrev PublicFailure := HttpStatusCode × String

def hidesPathDetail : SafePathErrorCode → Bool
  | .outsideSharedRoot | .resolutionFailed | .unsupportedReparsePoint => true
  | _ => false

/-- An invalid path, as every kind of operation reports it. -/
def invalidPathFailure (pathError : Option SafePathErrorCode) : PublicFailure :=
  if pathError.any hidesPathDetail then (.notFound,"not_found") else (.badRequest,"invalid_path")

def internalError : PublicFailure := (.internalServerError,"internal_error")

def publicAccessError (error : FilesystemResourceAccessError) : PublicFailure :=
  match error.code with
  | .invalidPath => invalidPathFailure (error.pathError.map SafePathError.code)
  | .conflict => (.locked,"resource_locked")
  | .cancelled | .deadlineExceeded => (.requestTimeout,"operation_interrupted")
  | .capacityExceeded => (.serviceUnavailable,"resource_coordination_unavailable")
  | .resourceAllocationFailed => internalError

def publicListingError (error : DirectoryListingError) : PublicFailure :=
  match error.code with
  | .invalidPath => invalidPathFailure error.pathError
  | .notFound => (.notFound,"not_found")
  | .notDirectory => (.badRequest,"not_directory")
  | .permissionDenied => (.forbidden,"permission_denied")
  | .tooManyEntries => (.contentTooLarge,"directory_too_large")
  | .filesystemFailure | .resourceAllocationFailed => internalError

def publicFileReadError (error : FileReadError) : PublicFailure :=
  match error.code with
  | .invalidPath => invalidPathFailure error.pathError
  | .notFound | .notRegularFile | .outsideSharedRoot => (.notFound,"not_found")
  | .permissionDenied => (.forbidden,"permission_denied")
  | .filesystemFailure | .cancelled | .resourceAllocationFailed => internalError

def publicFinalizationError (error : UploadFinalizationError) : PublicFailure :=
  match error.code with
  | .invalidDestination => invalidPathFailure (error.pathError.map SafePathError.code)
  | .parentUnavailable => (.notFound,"parent_not_found")
  | .destinationExists => (.conflict,"destination_exists")
  | .invalidSource => (.badRequest,"invalid_upload")
  | .cancelled | .deadlineExceeded => (.requestTimeout,"upload_interrupted")
  | .sourceReadFailed | .stagingFailed | .stagingWriteFailed | .stagingFlushFailed | .publishFailed
  | .resourceFailure => internalError

def publicTemporaryFileError (error : TemporaryFileError) : PublicFailure :=
  match error.code with
  | .cancelled | .deadlineExceeded => (.requestTimeout,"upload_interrupted")
  | _ => internalError

def publicCreationError (error : DirectoryCreationError) : PublicFailure :=
  match error.code with
  | .invalidDestination => invalidPathFailure (error.pathError.map SafePathError.code)
  | .parentUnavailable => (.notFound,"parent_not_found")
  | .destinationExists => (.conflict,"destination_exists")
  | .permissionDenied => (.forbidden,"permission_denied")
  | .creationFailed | .resourceFailure => internalError

def publicRemovalError (error : FilesystemEntryRemovalError) : PublicFailure :=
  match error.code with
  | .invalidDestination => invalidPathFailure (error.pathError.map SafePathError.code)
  | .parentUnavailable | .notFound => (.notFound,"not_found")
  | .directoryNotEmpty => (.conflict,"directory_not_empty")
  | .permissionDenied => (.forbidden,"permission_denied")
  | .removalFailed | .resourceFailure => internalError

/-- `std::get` on the detail of an error. -/
def readFailure (error : FilesystemReadError) : Option PublicFailure :=
  match error.code,error.detail with
  | .forbidden,_ => some (.forbidden,"read_forbidden")
  | .coordinationFailed,some (.access e) => some (publicAccessError e)
  | .directoryListingFailed,some (.listing e) => some (publicListingError e)
  | .fileReadFailed,some (.fileRead e) => some (publicFileReadError e)
  | .resourceAllocationFailed,_ => some internalError
  | _,_ => none

def uploadFailure (error : FilesystemUploadError) : Option PublicFailure :=
  match error.code,error.detail with
  | .forbidden,_ => some (.forbidden,"write_forbidden")
  | .invalidUpload,_ => some (.badRequest,"invalid_upload")
  | .coordinationFailed,some (.access e) => some (publicAccessError e)
  | .temporaryFileFailed,some (.temporaryFile e) => some (publicTemporaryFileError e)
  | .uploadFinalizationFailed,some (.finalization e) => some (publicFinalizationError e)
  | .resourceAllocationFailed,_ => some internalError
  | _,_ => none

def directoryCreationFailure (error : FilesystemDirectoryCreationError) : Option PublicFailure :=
  match error.code,error.detail with
  | .forbidden,_ => some (.forbidden,"write_forbidden")
  | .contentNotAllowed,_ => some (.badRequest,"body_not_allowed")
  | .coordinationFailed,some (.access e) => some (publicAccessError e)
  | .directoryCreationFailed,some (.creation e) => some (publicCreationError e)
  | .resourceAllocationFailed,_ => some internalError
  | _,_ => none

def removalFailure (error : FilesystemRemovalError) : Option PublicFailure :=
  match error.code,error.detail with
  | .forbidden,_ => some (.forbidden,"delete_forbidden")
  | .contentNotAllowed,_ => some (.badRequest,"body_not_allowed")
  | .coordinationFailed,some (.access e) => some (publicAccessError e)
  | .filesystemRemovalFailed,some (.removal e) => some (publicRemovalError e)
  | .resourceAllocationFailed,_ => some internalError
  | _,_ => none

/-- `make_json_response` without further fields, for a text of bytes. -/
def makeJsonText (date : Bytes) (status : HttpStatusCode) (body : Bytes) : RouteResult :=
  match HttpResponse.create date status (httpReasonPhrase status) [contentTypeHeader] body with
  | .error e => .error ⟨.responseValidationFailure,e.code.value⟩
  | .ok response => .ok response

def makeResponse (date : Bytes) (failure : PublicFailure) : RouteResult :=
  makeJsonText date failure.1 (appendJsonString (ascii "\x7b\"error\":") (ascii failure.2) ++ [char '}'])

/-- `make_public_error_response`; no value stands for an exception. -/
def makePublicErrorResponse (date : Bytes) (failure : Option PublicFailure) : Option RouteResult :=
  failure.map (makeResponse date)

def publicFailures : List PublicFailure :=
  [(.badRequest,"invalid_path"),(.badRequest,"not_directory"),(.badRequest,"invalid_upload"),
    (.badRequest,"body_not_allowed"),(.forbidden,"permission_denied"),(.forbidden,"read_forbidden"),
    (.forbidden,"write_forbidden"),(.forbidden,"delete_forbidden"),(.notFound,"not_found"),
    (.notFound,"parent_not_found"),(.requestTimeout,"operation_interrupted"),(.requestTimeout,"upload_interrupted"),
    (.conflict,"destination_exists"),(.conflict,"directory_not_empty"),(.contentTooLarge,"directory_too_large"),
    (.locked,"resource_locked"),(.internalServerError,"internal_error"),
    (.serviceUnavailable,"resource_coordination_unavailable")]

def publicErrorResponse (date : Bytes) (failure : PublicFailure) : HttpResponse where
  statusCode := failure.1
  reasonPhrase := httpReasonPhrase failure.1
  headers := [contentTypeHeader]
  memoryBody := ascii ("\x7b\"error\":\"" ++ failure.2 ++ "\"\x7d")
  contentLength := (ascii ("\x7b\"error\":\"" ++ failure.2 ++ "\"\x7d")).length
  dateValue := date
  bodyReader := none

theorem makeJsonText_eq (date : Bytes) (status : HttpStatusCode) (body : String) :
    makeJsonText date status (ascii body) = makeJsonResponse date status body [] := rfl

theorem makeResponse_eq (date : Bytes) : ∀ failure ∈ publicFailures,
    makeResponse date failure = .ok (publicErrorResponse date failure) := by
  have hchecked : ∀ failure ∈ publicFailures, (200 ≤ failure.1.value ∧ failure.1.value ≤ 599) ∧
      statusHasNoMessageBody failure.1 = false ∧
      appendJsonString (ascii "\x7b\"error\":") (ascii failure.2) ++ [char '}'] =
        ascii ("\x7b\"error\":\"" ++ failure.2 ++ "\"\x7d") ∧
      (ascii ("\x7b\"error\":\"" ++ failure.2 ++ "\"\x7d")).length < 10 ^ 6 := by decide +kernel
  intro failure hfailure
  obtain ⟨hrange,hstatus,htext,hlength⟩ := hchecked failure hfailure
  rw [makeResponse,htext,makeJsonText_eq]
  exact makeJsonResponse_ok hrange hstatus hlength (by simp) (by decide) (by simp)

theorem invalidPathFailure_public (pathError : Option SafePathErrorCode) :
    invalidPathFailure pathError ∈ publicFailures := by
  unfold invalidPathFailure
  split <;> decide

theorem publicAccessError_public (error : FilesystemResourceAccessError) : publicAccessError error ∈ publicFailures := by
  unfold publicAccessError
  split
  · exact invalidPathFailure_public _
  all_goals decide

theorem publicListingError_public (error : DirectoryListingError) : publicListingError error ∈ publicFailures := by
  unfold publicListingError
  split
  · exact invalidPathFailure_public _
  all_goals decide

theorem publicFileReadError_public (error : FileReadError) : publicFileReadError error ∈ publicFailures := by
  unfold publicFileReadError
  split
  · exact invalidPathFailure_public _
  all_goals decide

theorem publicFinalizationError_public (error : UploadFinalizationError) :
    publicFinalizationError error ∈ publicFailures := by
  unfold publicFinalizationError
  split
  · exact invalidPathFailure_public _
  all_goals decide

theorem publicTemporaryFileError_public (error : TemporaryFileError) :
    publicTemporaryFileError error ∈ publicFailures := by
  unfold publicTemporaryFileError
  split <;> decide

theorem publicCreationError_public (error : DirectoryCreationError) : publicCreationError error ∈ publicFailures := by
  unfold publicCreationError
  split
  · exact invalidPathFailure_public _
  all_goals decide

theorem publicRemovalError_public (error : FilesystemEntryRemovalError) :
    publicRemovalError error ∈ publicFailures := by
  unfold publicRemovalError
  split
  · exact invalidPathFailure_public _
  all_goals decide

end SpareNode.Http.Api
