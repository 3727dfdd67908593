import SpareNode.Http.MimeTypeRegistry

/-! # The MIME types loader

A source is read line by line: a media type and the extensions that it is for, up to a comment. The
mappings of all lines are checked together; next to each of them stands the number of its line.
Allocation does not fail.
-/
namespace SpareNode.Bootstrap
open Http

inductive MimeTypesLoadErrorCode where
  | openFailed | readFailed | fileTooLarge | lineTooLong | invalidLine | invalidExtension | invalidMediaType
  | duplicateExtension | tooManyEntries | resourceAllocationFailed
deriving DecidableEq, Repr

structure MimeTypesLoadError where
  code : MimeTypesLoadErrorCode
  line : ℕ := 1
deriving DecidableEq, Repr

def maximumFileBytes : ℕ := 256 * 1024
def maximumLineBytes : ℕ := 1024

def isHorizontalSpace (value : Byte) : Bool := value = char ' ' || value = 9

def isTokenByte (value : Byte) : Bool := !isHorizontalSpace value && value ≠ char '#'

/-- The loop of `split_tokens` on the rest of the line. -/
def splitTokens (line : Bytes) : List Bytes :=
  match _hrest : line.dropWhile isHorizontalSpace with
  | [] => []
  | first :: rest =>
    if _hcomment : first = char '#' then []
    else
      let token := (first :: rest).takeWhile isTokenByte
      match _hnext : (first :: rest).dropWhile isTokenByte with
      | [] => [token]
      | next :: after => if next = char '#' then [token] else token :: splitTokens (next :: after)
termination_by line.length
decreasing_by
  have hlength := (List.dropWhile_sublist (l := line) isHorizontalSpace).length_le
  have hfirst := List.head?_dropWhile_not isHorizontalSpace line
  rw [_hrest] at hlength hfirst
  have htoken : isTokenByte first = true := by simpa [isTokenByte,_hcomment] using hfirst
  rw [List.dropWhile_cons_of_pos htoken] at _hnext
  have hshorter := (List.dropWhile_sublist (l := rest) isTokenByte).length_le
  rw [_hnext] at hshorter
  rw [List.length_cons] at hlength
  omega

def loadErrorCode : MimeTypeRegistryErrorCode → MimeTypesLoadErrorCode
  | .invalidExtension => .invalidExtension
  | .invalidMediaType => .invalidMediaType
  | .duplicateExtension => .duplicateExtension
  | .tooManyEntries => .tooManyEntries
  | .resourceAllocationFailed => .resourceAllocationFailed

/-- The loop of `append_line_mappings` over the extensions of a line. -/
def appendExtensions (lineNumber : ℕ) (mediaType : Bytes) (mappings : List MimeTypeMapping) (sourceLines : List ℕ) :
    List Bytes → Except MimeTypesLoadError (List MimeTypeMapping × List ℕ)
  | [] => .ok (mappings,sourceLines)
  | extension :: rest =>
    if mappings.length = maximumEntries then .error ⟨.tooManyEntries,lineNumber⟩
    else appendExtensions lineNumber mediaType (mappings ++ [⟨extension,mediaType⟩]) (sourceLines ++ [lineNumber]) rest

def appendLineMappings (line : Bytes) (lineNumber : ℕ) (mappings : List MimeTypeMapping) (sourceLines : List ℕ) :
    Except MimeTypesLoadError (List MimeTypeMapping × List ℕ) :=
  if maximumLineBytes < line.length then .error ⟨.lineTooLong,lineNumber⟩
  else
    match splitTokens line with
    | [] => .ok (mappings,sourceLines)
    | [_] => .error ⟨.invalidLine,lineNumber⟩
    | mediaType :: extensions => appendExtensions lineNumber mediaType mappings sourceLines extensions

/-- A line without the carriage return in front of its end. -/
def withoutReturn (line : Bytes) : Bytes := if line.getLast? = some cr then line.dropLast else line

/-- The loop of `MimeTypesLoader::parse` on the rest of the source, with the number of its last line. -/
def parseLines (rest : Bytes) (lineNumber : ℕ) (mappings : List MimeTypeMapping) (sourceLines : List ℕ) :
    Except MimeTypesLoadError (List MimeTypeMapping × List ℕ × ℕ) :=
  match _hend : find lf rest with
  | none =>
    match appendLineMappings (withoutReturn rest) lineNumber mappings sourceLines with
    | .error failure => .error failure
    | .ok (mappings,sourceLines) => .ok (mappings,sourceLines,lineNumber)
  | some lineEnd =>
    match appendLineMappings (withoutReturn (rest.take lineEnd)) lineNumber mappings sourceLines with
    | .error failure => .error failure
    | .ok (mappings,sourceLines) => parseLines (rest.drop (lineEnd + 1)) (lineNumber + 1) mappings sourceLines
termination_by rest.length
decreasing_by
  have := find_lt_length _hend
  rw [List.length_drop]
  omega

def parse (source : Bytes) : Except MimeTypesLoadError MimeTypeRegistry :=
  if maximumFileBytes < source.length then .error ⟨.fileTooLarge,1⟩
  else
    match parseLines source 1 [] [] with
    | .error failure => .error failure
    | .ok (mappings,sourceLines,lineNumber) =>
      match MimeTypeRegistry.create mappings with
      | .error failure =>
        .error ⟨loadErrorCode failure.code,(sourceLines[failure.mappingIndex]?).getD lineNumber⟩
      | .ok registry => .ok registry

end SpareNode.Bootstrap
