import SpareNode.Library.LexicalPath

/-! # Temporary files

What the rest of the program asks a temporary file for, and how its operations fail.
-/
namespace SpareNode.Storage

/-- `TemporaryFileErrorCode`. -/
inductive TemporaryFileErrorCode
  | temporaryDirectoryUnavailable
  | createFailed
  | writeFailed
  | flushFailed
  | closeFailed
  | cancelled
  | deadlineExceeded
  | invalidState
  | resourceAllocationFailed
  deriving DecidableEq, Repr

/-- `TemporaryFileError`. -/
structure TemporaryFileError where
  code : TemporaryFileErrorCode := .temporaryDirectoryUnavailable
  nativeCode : ℤ := 0
  deriving DecidableEq, Repr

/-- A private file, seen from outside its owner. -/
structure TemporaryFile where
  path : LexicalPath.Path
  size : ℕ
  completed : Bool

end SpareNode.Storage
