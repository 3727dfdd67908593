import SpareNode.Filesystem.ListedNames
import SpareNode.Http.Api.JsonWriter
import SpareNode.Http.Transport.ResponseHead

/-! # Listings survive their encoding

No byte of a name can break out of its string, so that a listing is a JSON text of the entries that it was made
from, and it always fits into a response.
-/
namespace SpareNode.Http.Api
open Filesystem Json Utf8 Authentication

/-- The digits behind `\u` for a control byte. -/
def controlQuad (b : Byte) : Bytes := ascii "00" ++ [hexadecimal (b.toNat >>> 4)] ++ [hexadecimal (b.toNat &&& 0x0F)]

/-- A byte is written as it is, by a short escape or by its code point. -/
theorem escapeByte_cases : ∀ b, (escapeByte b = [b] ∧ isPlain b = true) ∨
    (∃ entry ∈ shortEscapes, entry.2 = b ∧ escapeByte b = [char '\\',entry.1]) ∨
    (b < 0x80 ∧ escapeByte b = char '\\' :: char 'u' :: controlQuad b ∧ (controlQuad b).length = 4 ∧
      (controlQuad b).all (isDigit 16) = true ∧ numeral 16 (controlQuad b) = b.toNat) :=
  forall_byte (by decide +kernel)

theorem escapeByte_item {Raw : Bytes → Prop} {b : Byte} (hraw : isPlain b = true → Raw [b]) (t : Bytes) :
    Item Raw (escapeByte b ++ t) [b] t := by
  rcases escapeByte_cases b with ⟨hwritten,hplain⟩ | ⟨⟨letter,b⟩,hmem,rfl,hwritten⟩ |
    ⟨hascii,hwritten,hlength,hdigits,hvalue⟩
  · rw [hwritten]
    exact .raw (hraw hplain)
  · rw [hwritten]
    exact .short hmem
  · have hlt : b.toNat < 0x80 := hascii
    have hscalar : isScalarValue b.toNat = true := by
      simp only [isScalarValue,Bool.and_eq_true,Bool.or_eq_true,decide_eq_true_eq]
      omega
    have hbyte : encode ⟨b.toNat,hscalar⟩ = [b] := by rw [encode_of_ascii hlt,UInt8.ofNat_toNat]
    rw [hwritten,List.cons_append,List.cons_append,← hbyte]
    exact .unit ⟨b.toNat,hscalar⟩ ⟨hlength,hdigits,hvalue⟩

/-- Any bytes are read back by a reader that takes them as they are. -/
theorem chars_escaped_plain (value t : Bytes) : Chars Plain (value.flatMap escapeByte ++ char '"' :: t) value t := by
  induction value with
  | nil => exact .close
  | cons b value ih =>
    rw [List.flatMap_cons,List.append_assoc]
    exact .cons (escapeByte_item (fun hb => ⟨b,hb,rfl⟩) _) ih

theorem escapeByte_high : ∀ b, 0x80 ≤ b → escapeByte b = [b] := forall_byte (by decide +kernel)

/-- Valid UTF-8 is written as a string of the grammar. -/
theorem jsonString_writes {value : Bytes} (h : isValid value = true) : WritesString (jsonString value) value := by
  intro t
  have hchars : Chars Unescaped (value.flatMap escapeByte ++ char '"' :: t) value t := by
    obtain ⟨vs,rfl⟩ := isValid_iff.mp h
    induction vs with
    | nil => exact .close
    | cons v vs ih =>
      rw [encodeAll_cons,List.flatMap_append,List.append_assoc]
      have hrest := ih (isValid_iff.mpr ⟨vs,rfl⟩)
      refine .cons ?_ hrest
      by_cases hascii : v.val < 0x80
      · rw [encode_of_ascii hascii,List.flatMap_singleton]
        refine escapeByte_item (fun hplain => isPlain_unescaped hplain ?_) _
        rw [UInt8.lt_iff_toNat_lt,UInt8.toNat_ofNat_of_lt' (hascii.trans (by decide))]
        exact hascii
      · have hhigh : ∀ b ∈ encode v, 0x80 ≤ b := fun b hb => encode_high (not_lt.mp hascii) hb
        have hwritten : (encode v).flatMap escapeByte = encode v := by
          have hsame : (encode v).flatMap escapeByte = (encode v).flatMap fun b => [b] :=
            List.flatMap_congr fun b hb => escapeByte_high b (hhigh b hb)
          rw [hsame,List.flatMap_singleton']
        rw [hwritten]
        obtain ⟨b,rest,hencode⟩ := List.exists_cons_of_ne_nil (encode_ne_nil v)
        have hmem : b ∈ encode v := by
          rw [hencode]
          exact List.mem_cons_self
        exact .raw (isPlain_unescaped_high hmem (hhigh b hmem))
  refine ⟨_,?_,hchars⟩
  rw [jsonString,List.cons_append,List.append_assoc,List.singleton_append]

/-- The server's own reader of strings gives back any bytes that were written by `append_json_string`. -/
theorem parseString_appendJsonString (s : Bytes) : ∃ output,
    LoginJsonParser.parseString (appendJsonString [] s) = (output,some []) ∧ output.bytes = s := by
  have hread : LoginJsonParser.readString (appendJsonString [] s) = some (s,[]) := by
    rw [appendJsonString_eq,List.nil_append,jsonString,LoginJsonParser.readString_iff]
    exact ⟨_,rfl,chars_escaped_plain s []⟩
  unfold LoginJsonParser.readString at hread
  split at hread
  · cases hread
  · rename_i output rest hparse
    obtain ⟨hbytes,rfl⟩ := Prod.mk.inj (Option.some.inj hread)
    exact ⟨output,hparse,hbytes⟩

def sizeValue (size : Option ℕ) : Json :=
  match size with
  | some size => .number size
  | none => .null

def entryValue (formatTimestamp : ℤ → Bytes) (entry : DirectoryListingEntry) : Json :=
  .object [(ascii "name",.string entry.name),(ascii "type",.string (entryTypeName entry.type)),
    (ascii "size",sizeValue entry.size),(ascii "modifiedAt",.string (formatTimestamp entry.modificationTime))]

def listingValue (formatTimestamp : ℤ → Bytes) (entries : List DirectoryListingEntry) : Json :=
  .object [(ascii "entries",.array (entries.map (entryValue formatTimestamp)))]

def isTimestampByte (b : Byte) : Bool := isDigit 10 b || (ascii "-:TZ").contains b

/-- What is known of the texts in an entry. -/
structure Listable (formatTimestamp : ℤ → Bytes) (entry : DirectoryListingEntry) : Prop where
  name : isValid entry.name = true
  timestamp : (formatTimestamp entry.modificationTime).all isTimestampByte = true

/-- A successful listing has few entries, all of them with such texts. -/
theorem listDirectory_listable {fs : FileTree.Tree} {host : DirectoryHost fs} {root : SharedRoot} {request : Bytes}
    {formatTimestamp : ℤ → Bytes} {entries : List DirectoryListingEntry}
    (h : listDirectory host root request = .ok entries)
    (htime : ∀ time, (formatTimestamp time).all isTimestampByte = true) :
    entries.length ≤ maximumDirectoryListingEntries ∧ ∀ entry ∈ entries, Listable formatTimestamp entry :=
  ⟨listDirectory_length h,fun entry hentry => ⟨listDirectory_valid h entry hentry,htime _⟩⟩

theorem isTimestampByte_plain : ∀ b, isTimestampByte b = true → b < 0x80 ∧ escapeByte b = [b] :=
  forall_byte (by decide +kernel)

theorem isValid_ascii {s : Bytes} (h : ∀ b ∈ s, b < 0x80) : isValid s = true := by
  have happend := isValid_ascii_append (t := []) h
  rw [List.append_nil] at happend
  rw [happend,isValid_nil]

theorem timestamp_valid {s : Bytes} (h : s.all isTimestampByte = true) : isValid s = true :=
  isValid_ascii fun b hb => (isTimestampByte_plain b (List.all_eq_true.mp h b hb)).1

theorem literal_valid {s : Bytes} (h : s.all (fun b => b < 0x80) = true) : isValid s = true :=
  isValid_ascii fun b hb => decide_eq_true_eq.mp (List.all_eq_true.mp h b hb)

theorem sizeText_writes (size : Option ℕ) : Json.Writes Denotes (sizeText size) (sizeValue size) := by
  cases size with
  | none => exact writes_null
  | some size => exact writes_natural size

theorem memberText_writes {name text : Bytes} {value : Json} (hname : name.all (fun b => b < 0x80) = true)
    (h : Json.Writes Denotes text value) : Json.Writes (Member Unescaped Denotes) (memberText name text) (name,value) :=
  writes_member (jsonString_writes (literal_valid hname)) h

variable {formatTimestamp : ℤ → Bytes} {entry : DirectoryListingEntry} {entries : List DirectoryListingEntry}

theorem entryText_writes (h : Listable formatTimestamp entry) :
    Json.Writes Denotes (entryText formatTimestamp entry) (entryValue formatTimestamp entry) := by
  have htype : isValid (entryTypeName entry.type) = true := by
    apply literal_valid
    cases entry.type <;> decide
  have hname := writes_string (jsonString_writes h.name)
  have htime := writes_string (jsonString_writes (timestamp_valid h.timestamp))
  exact writes_object (.cons (memberText_writes (by decide) hname)
    (.cons (memberText_writes (by decide) (writes_string (jsonString_writes htype)))
      (.cons (memberText_writes (by decide) (sizeText_writes entry.size))
        (.cons (memberText_writes (by decide) htime) .nil))))

theorem serializeListing_writes (h : ∀ entry ∈ entries, Listable formatTimestamp entry) :
    Json.Writes Denotes (serializeListing formatTimestamp entries) (listingValue formatTimestamp entries) := by
  have hitems : List.Forall₂ (Json.Writes Denotes) (entries.map (entryText formatTimestamp))
      (entries.map (entryValue formatTimestamp)) := by
    rw [List.forall₂_map_left_iff,List.forall₂_map_right_iff,List.forall₂_same]
    exact fun entry hentry => entryText_writes (h entry hentry)
  rw [serializeListing_eq]
  exact writes_object (.cons (memberText_writes (by decide) (writes_array hitems)) .nil)

theorem escapeByte_length : ∀ b, (escapeByte b).length ≤ 6 := forall_byte (by decide +kernel)

theorem jsonString_length (s : Bytes) : (jsonString s).length ≤ 6 * s.length + 2 := by
  have hbytes : (s.flatMap escapeByte).length ≤ 6 * s.length := by
    induction s with
    | nil => exact Nat.le_refl 0
    | cons b s ih =>
      have hb := escapeByte_length b
      rw [List.flatMap_cons,List.length_append,List.length_cons]
      omega
  rw [jsonString,List.length_cons,List.length_append,List.length_singleton]
  omega

theorem jsonString_timestamp {s : Bytes} (h : s.all isTimestampByte = true) : (jsonString s).length = s.length + 2 := by
  have hsame : s.flatMap escapeByte = s := by
    have hbytes : s.flatMap escapeByte = s.flatMap fun b => [b] :=
      List.flatMap_congr fun b hb => (isTimestampByte_plain b (List.all_eq_true.mp h b hb)).2
    rw [hbytes,List.flatMap_singleton']
  rw [jsonString,hsame,List.length_cons,List.length_append,List.length_singleton]

/-- The sizes of what an entry holds: a name of a file system, a `std::uintmax_t` and a timestamp. -/
structure Limited (formatTimestamp : ℤ → Bytes) (entry : DirectoryListingEntry) : Prop where
  name : entry.name.length ≤ 255
  size : ∀ size ∈ entry.size, size < 2 ^ 64
  timestamp : (formatTimestamp entry.modificationTime).length ≤ 20

theorem sizeText_length {size : Option ℕ} (h : ∀ n ∈ size, n < 2 ^ 64) : (sizeText size).length ≤ 20 := by
  cases size with
  | none => decide
  | some size =>
    have hsize : size < 2 ^ 64 := h size rfl
    exact toDecimal_length_le (hsize.trans (by decide)) (by decide)

theorem memberText_length (name value : Bytes) :
    (memberText name value).length = (jsonString name).length + 1 + value.length := by
  rw [memberText,List.length_append,List.length_cons]
  omega

/-- What a file system gives: a name of a directory and a `std::uintmax_t`. -/
structure Native (entry : DirectoryListingEntry) : Prop where
  name : entry.name.length ≤ 255
  size : ∀ size ∈ entry.size, size < 2 ^ 64

theorem entryText_length (hlistable : Listable formatTimestamp entry) (h : Native entry)
    (hstamp : (formatTimestamp entry.modificationTime).length ≤ 22) :
    (entryText formatTimestamp entry).length ≤ 1626 := by
  have hlabels : (jsonString (ascii "name")).length = 6 ∧ (jsonString (ascii "type")).length = 6 ∧
      (jsonString (ascii "size")).length = 6 ∧ (jsonString (ascii "modifiedAt")).length = 12 := by decide
  have htype : (jsonString (entryTypeName entry.type)).length ≤ 11 := by cases entry.type <;> decide
  have hname := jsonString_length entry.name
  have htime := jsonString_timestamp hlistable.timestamp
  have hsize := sizeText_length h.size
  have hlimit := h.name
  simp only [entryText,entryMembers,commaJoin,List.length_cons,List.length_append,List.length_nil,memberText_length]
  omega

theorem commaJoin_length (texts : List Bytes) {n : ℕ} (h : ∀ text ∈ texts, text.length ≤ n) :
    (commaJoin texts).length ≤ texts.length * (n + 1) := by
  fun_induction commaJoin texts with
  | case1 => exact Nat.zero_le _
  | case2 text =>
    have htext := h text List.mem_cons_self
    rw [List.length_singleton]
    omega
  | case3 text next rest ih =>
    rw [List.forall_mem_cons] at h
    have hrest := ih h.2
    have htext := h.1
    rw [List.length_append,List.length_cons,List.length_cons,Nat.succ_mul]
    omega

/-- A bounded listing stays below the limit of a response body. -/
theorem serializeListing_length (hentries : ∀ entry ∈ entries, Listable formatTimestamp entry)
    (hcount : entries.length ≤ maximumDirectoryListingEntries) (h : ∀ entry ∈ entries, Native entry)
    (hstamps : ∀ entry ∈ entries, (formatTimestamp entry.modificationTime).length ≤ 22) :
    (serializeListing formatTimestamp entries).length ≤ maximumMemoryBodyBytes := by
  have hlabel : (jsonString (ascii "entries")).length = 9 := by decide
  have htexts := commaJoin_length (entries.map (entryText formatTimestamp)) (n := 1626)
    (List.forall_mem_map.mpr fun entry hentry => entryText_length (hentries entry hentry) (h entry hentry)
      (hstamps entry hentry))
  rw [List.length_map] at htexts
  rw [serializeListing_eq]
  simp only [commaJoin,List.length_cons,List.length_append,List.length_nil,memberText_length]
  rw [maximumDirectoryListingEntries] at hcount
  rw [maximumMemoryBodyBytes]
  omega

theorem decimalDigitCount_le {n k : ℕ} (h : n < 10 ^ k) (hk : 0 < k) : decimalDigitCount n ≤ k := by
  rw [← decimalText_length]
  exact toDecimal_length_le h hk

theorem listing_head_valid {contentLength : ℕ} (h : contentLength ≤ maximumMemoryBodyBytes) :
    validateResponse .ok (httpReasonPhrase .ok) [⟨ascii "Content-Type",ascii "application/json; charset=utf-8"⟩]
      contentLength = .ok () := by
  have hdigits : decimalDigitCount contentLength ≤ 7 := decimalDigitCount_le (h.trans_lt (by decide)) (by decide)
  have hsize : fixedHeadSize .ok (httpReasonPhrase .ok) contentLength = 93 + decimalDigitCount contentLength := by
    have hfixed : fixedHeadSize .ok (httpReasonPhrase .ok) contentLength =
        15 + (httpReasonPhrase .ok).length + (18 + decimalDigitCount contentLength + 2) +
          ((ascii "Connection: close\r\n").length + responseDateFieldBytes) + 0 := rfl
    have hphrase : (httpReasonPhrase .ok).length = 2 := by decide
    have hconnection : (ascii "Connection: close\r\n").length + responseDateFieldBytes = 56 := by decide
    rw [hfixed,hphrase,hconnection]
    omega
  have hheader (remaining : ℕ) (hremaining : 100 ≤ remaining) : ∃ size,
      validateHeader ⟨ascii "Content-Type",ascii "application/json; charset=utf-8"⟩ 0 remaining = .ok size := by
    have hname : (ascii "Content-Type").length = 12 := by decide
    have hvalue : (ascii "application/json; charset=utf-8").length = 31 := by decide
    unfold validateHeader
    rw [if_neg (by decide),if_neg (by decide +kernel),if_neg (by decide),if_neg (by decide),if_neg (by decide),
      if_neg (by rw [hname,hvalue]; omega)]
    exact ⟨_,rfl⟩
  obtain ⟨size,hok⟩ := hheader (maximumHeadBytes - (93 + decimalDigitCount contentLength))
    (by rw [maximumHeadBytes]; omega)
  unfold validateResponse
  rw [if_neg (by decide),if_neg (by decide +kernel),if_neg (by simp [show statusHasNoMessageBody .ok = false by decide]),
    if_neg (by simp [maximumHeaderCount]),hsize,
    if_neg (by rw [maximumHeadBytes]; omega)]
  simp only [validateHeaders,hok]

theorem listingResponse_ok (h : (serializeListing formatTimestamp entries).length ≤ maximumMemoryBodyBytes)
    (date : Bytes) : ∃ response, listingResponse date formatTimestamp entries = .ok response ∧
      response.statusCode = .ok ∧ response.memoryBody = serializeListing formatTimestamp entries := by
  have hhead := listing_head_valid h
  rw [listingResponse,HttpResponse.create,if_neg (by omega),hhead]
  exact ⟨_,rfl,rfl,rfl⟩

/-- A listing is a text of the grammar that decodes to its entries and to nothing else, the server's own reader
takes any string back, and a bounded listing is never refused as a response. -/
theorem listing_survives_encoding (h : ∀ entry ∈ entries, Listable formatTimestamp entry) :
    (∀ value, Text (serializeListing formatTimestamp entries) value ↔ value = listingValue formatTimestamp entries) ∧
    (∀ s, ∃ output, LoginJsonParser.parseString (appendJsonString [] s) = (output,some []) ∧ output.bytes = s) ∧
    (entries.length ≤ maximumDirectoryListingEntries → (∀ entry ∈ entries, Limited formatTimestamp entry) →
      (serializeListing formatTimestamp entries).length ≤ maximumMemoryBodyBytes ∧
      ∀ date, ∃ response, listingResponse date formatTimestamp entries = .ok response ∧
        response.memoryBody = serializeListing formatTimestamp entries) := by
  refine ⟨fun value => (serializeListing_writes h).text_iff,parseString_appendJsonString,?_⟩
  intro hcount hlimited
  have hlength := serializeListing_length h hcount
    (fun entry hentry => ⟨(hlimited entry hentry).name,(hlimited entry hentry).size⟩)
    (fun entry hentry => (hlimited entry hentry).timestamp.trans (by decide))
  refine ⟨hlength,fun date => ?_⟩
  obtain ⟨response,hresponse,-,hbody⟩ := listingResponse_ok hlength date
  exact ⟨response,hresponse,hbody⟩

/-- A name with everything in it that has to be escaped. -/
def quotedEntry : DirectoryListingEntry := ⟨ascii "a\"\\\n" ++ [1],.regularFile,some 7,0⟩

def newYear : Bytes := ascii "2024-01-01T00:00:00Z"

theorem listing_survives_encoding_quoted :
    (∀ value, Text (serializeListing (fun _ => newYear) [quotedEntry]) value ↔
      value = listingValue (fun _ => newYear) [quotedEntry]) ∧
    (serializeListing (fun _ => newYear) [quotedEntry]).length ≤ maximumMemoryBodyBytes := by
  have hlistable : ∀ entry ∈ [quotedEntry], Listable (fun _ => newYear) entry :=
    List.forall_mem_singleton.mpr ⟨literal_valid (by decide),by decide⟩
  have hlimited : ∀ entry ∈ [quotedEntry], Limited (fun _ => newYear) entry := by
    refine List.forall_mem_singleton.mpr ⟨by decide,?_,by decide⟩
    intro size hsize
    rw [← Option.some.inj hsize]
    decide
  have hall := listing_survives_encoding hlistable
  exact ⟨hall.1,(hall.2.2 (by decide) hlimited).1⟩

end SpareNode.Http.Api
