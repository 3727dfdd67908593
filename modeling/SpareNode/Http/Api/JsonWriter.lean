import SpareNode.Authentication.LoginStrings
import SpareNode.Filesystem.DirectoryListing
import SpareNode.Foundation.JsonCharacters
import SpareNode.Foundation.JsonWriting
import SpareNode.Http.Api.ApiRouterBuilder

/-! # The JSON text of a directory listing

`append_json_string` writes the bytes of a name as they are, apart from those that have a meaning in a string or
may not stand in one. How a time is written is a parameter.
-/
namespace SpareNode.Http.Api
open Filesystem

/-- What the loop of `append_json_string` writes for a byte. -/
def escapeByte (byte : Byte) : Bytes :=
  if byte = char '"' then ascii "\\\""
  else if byte = char '\\' then ascii "\\\\"
  else if byte = 8 then ascii "\\b"
  else if byte = 12 then ascii "\\f"
  else if byte = 10 then ascii "\\n"
  else if byte = 13 then ascii "\\r"
  else if byte = 9 then ascii "\\t"
  else if byte < 0x20 then
    ascii "\\u00" ++ [hexadecimal (byte.toNat >>> 4)] ++ [hexadecimal (byte.toNat &&& 0x0F)]
  else [byte]

def appendJsonString (output value : Bytes) : Bytes :=
  value.foldl (fun output byte => output ++ escapeByte byte) (output ++ [char '"']) ++ [char '"']

def entryTypeName : DirectoryEntryType → Bytes
  | .regularFile => ascii "file"
  | .directory => ascii "directory"
  | .symbolicLink => ascii "symlink"
  | .other => ascii "other"

/-- The body of the loop of `serialize_listing`, behind its comma. -/
def appendEntry (formatTimestamp : ℤ → Bytes) (output : Bytes) (entry : DirectoryListingEntry) : Bytes :=
  let output := appendJsonString (output ++ ascii "\x7b\"name\":") entry.name
  let output := appendJsonString (output ++ ascii ",\"type\":") (entryTypeName entry.type)
  let output := output ++ ascii ",\"size\":" ++
    match entry.size with
    | some size => toDecimal size
    | none => ascii "null"
  let output := appendJsonString (output ++ ascii ",\"modifiedAt\":") (formatTimestamp entry.modificationTime)
  output ++ [char '}']

/-- The loop of `serialize_listing`. -/
def appendEntries (formatTimestamp : ℤ → Bytes) : (first : Bool) → Bytes → List DirectoryListingEntry → Bytes
  | _,output,[] => output
  | first,output,entry :: rest =>
    let output := if first then output else output ++ [char ',']
    appendEntries formatTimestamp false (appendEntry formatTimestamp output entry) rest

def serializeListing (formatTimestamp : ℤ → Bytes) (entries : List DirectoryListingEntry) : Bytes :=
  appendEntries formatTimestamp true (ascii "\x7b\"entries\":[") entries ++ ascii "]\x7d"

/-- The answer to a listing: `make_json_response` with its text. -/
def listingResponse (date : Bytes) (formatTimestamp : ℤ → Bytes) (entries : List DirectoryListingEntry) : RouteResult :=
  let contentType : HttpResponseHeader := ⟨ascii "Content-Type",ascii "application/json; charset=utf-8"⟩
  match HttpResponse.create date .ok (httpReasonPhrase .ok) [contentType] (serializeListing formatTimestamp entries) with
  | .error e => .error ⟨.responseValidationFailure,e.code.value⟩
  | .ok response => .ok response

def jsonString (value : Bytes) : Bytes := char '"' :: (value.flatMap escapeByte ++ [char '"'])

theorem appendJsonString_eq (output value : Bytes) : appendJsonString output value = output ++ jsonString value := by
  have hfold (output value : Bytes) :
      value.foldl (fun output byte => output ++ escapeByte byte) output = output ++ value.flatMap escapeByte := by
    induction value generalizing output with
    | nil => exact (List.append_nil _).symm
    | cons b value ih => rw [List.foldl_cons,ih,List.flatMap_cons,List.append_assoc]
  rw [appendJsonString,hfold,jsonString,List.append_assoc,List.append_assoc]
  rfl

def sizeText (size : Option ℕ) : Bytes :=
  match size with
  | some size => toDecimal size
  | none => ascii "null"

def memberText (name value : Bytes) : Bytes := jsonString name ++ char ':' :: value

def entryMembers (formatTimestamp : ℤ → Bytes) (entry : DirectoryListingEntry) : List Bytes :=
  [memberText (ascii "name") (jsonString entry.name),memberText (ascii "type") (jsonString (entryTypeName entry.type)),
    memberText (ascii "size") (sizeText entry.size),
    memberText (ascii "modifiedAt") (jsonString (formatTimestamp entry.modificationTime))]

def entryText (formatTimestamp : ℤ → Bytes) (entry : DirectoryListingEntry) : Bytes :=
  char '{' :: (Json.commaJoin (entryMembers formatTimestamp entry) ++ [char '}'])

theorem appendEntry_eq (formatTimestamp : ℤ → Bytes) (output : Bytes) (entry : DirectoryListingEntry) :
    appendEntry formatTimestamp output entry = output ++ entryText formatTimestamp entry := by
  have hname : ascii "\x7b\"name\":" = char '{' :: (jsonString (ascii "name") ++ [char ':']) := by decide
  have htype : ascii ",\"type\":" = char ',' :: (jsonString (ascii "type") ++ [char ':']) := by decide
  have hsize : ascii ",\"size\":" = char ',' :: (jsonString (ascii "size") ++ [char ':']) := by decide
  have htime : ascii ",\"modifiedAt\":" = char ',' :: (jsonString (ascii "modifiedAt") ++ [char ':']) := by decide
  have hmatch : (match entry.size with
      | some size => toDecimal size
      | none => ascii "null") = sizeText entry.size := rfl
  rw [appendEntry,hmatch]
  simp only [appendJsonString_eq,hname,htype,hsize,htime,entryText,entryMembers,memberText,Json.commaJoin,
    List.append_assoc,List.cons_append,List.nil_append]

theorem appendEntries_eq (formatTimestamp : ℤ → Bytes) (output : Bytes) (entries : List DirectoryListingEntry) :
    appendEntries formatTimestamp true output entries =
      output ++ Json.commaJoin (entries.map (entryText formatTimestamp)) := by
  have hmore (output : Bytes) (entries : List DirectoryListingEntry) : appendEntries formatTimestamp false output entries =
      output ++ entries.flatMap (fun entry => char ',' :: entryText formatTimestamp entry) := by
    induction entries generalizing output with
    | nil => exact (List.append_nil _).symm
    | cons entry entries ih =>
      rw [appendEntries,ih,appendEntry_eq,List.flatMap_cons]
      simp only [Bool.false_eq_true,if_false,List.append_assoc,List.cons_append,List.nil_append]
  have hjoin (text : Bytes) (entries : List DirectoryListingEntry) :
      Json.commaJoin (text :: entries.map (entryText formatTimestamp)) =
        text ++ entries.flatMap (fun entry => char ',' :: entryText formatTimestamp entry) := by
    induction entries generalizing text with
    | nil => exact (List.append_nil _).symm
    | cons entry entries ih => rw [List.map_cons,Json.commaJoin,ih,List.flatMap_cons,List.cons_append]
  cases entries with
  | nil => exact (List.append_nil _).symm
  | cons entry entries =>
    rw [appendEntries,hmore,appendEntry_eq,List.map_cons,hjoin,List.append_assoc]
    rfl

theorem serializeListing_eq (formatTimestamp : ℤ → Bytes) (entries : List DirectoryListingEntry) :
    serializeListing formatTimestamp entries = char '{' :: (Json.commaJoin [memberText (ascii "entries")
      (char '[' :: (Json.commaJoin (entries.map (entryText formatTimestamp)) ++ [char ']']))] ++ [char '}']) := by
  have hopen : ascii "\x7b\"entries\":[" = char '{' :: (jsonString (ascii "entries") ++ [char ':',char '[']) := by decide
  have hclose : ascii "]\x7d" = [char ']',char '}'] := by decide
  rw [serializeListing,appendEntries_eq,hopen,hclose]
  simp only [Json.commaJoin,memberText,List.append_assoc,List.cons_append,List.nil_append]

end SpareNode.Http.Api
