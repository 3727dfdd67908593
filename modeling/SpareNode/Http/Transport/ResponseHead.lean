import SpareNode.Foundation.Decimal
import SpareNode.Foundation.Lines
import SpareNode.Http.Request.ChunkedGrammar
import SpareNode.Http.Transport.ResponseWriter

/-! # Response heads

The head that the writer emits, read back as lines. Whatever fields an application gives, it splits into
the lines that were meant, and its size is the one that validation has predicted.
-/
namespace SpareNode.Http

/-- A sum that stays in the range of `std::size_t`. -/
def addSize (a b : ℕ) : Option ℕ := if a + b ≤ sizeMax then some (a + b) else none

/-- A difference of unsigned sizes that does not wrap. -/
def subSize (a b : ℕ) : Option ℕ := if b ≤ a then some (a - b) else none

/-- The size of one serialized field, after the checks that it fits. -/
def fieldSize (headSize : ℕ) (header : HttpResponseHeader) : Option ℕ := do
  let remaining ← subSize maximumHeadBytes headSize
  let afterName ← subSize remaining header.name.length
  let _ ← subSize afterName header.value.length
  addSize (← addSize header.name.length header.value.length) 4

/-- `framing_bytes` of `validate_response`. -/
def framingBytes (status : HttpStatusCode) (contentLength : ℕ) : Option ℕ :=
  if statusHasNoMessageBody status then some 2 else do addSize (← addSize 18 (decimalDigitCount contentLength)) 2

def connectionBytes (status : HttpStatusCode) : Option ℕ :=
  if HttpStatusCode.ok.value ≤ status.value then addSize (ascii "Connection: close\r\n").length responseDateFieldBytes
  else some 0

def resetContentBytes (status : HttpStatusCode) : Option ℕ := if status = .resetContent then addSize 18 1 else some 0

/-- The arithmetic of `validate_response` and `validate_header` on a response that they accept, in its order: the
size that they predict, or nothing where a step leaves the range of its type. -/
def predictedHeadSize (status : HttpStatusCode) (reasonPhrase : Bytes) (headers : List HttpResponseHeader)
    (contentLength : ℕ) : Option ℕ := do
  let framing ← framingBytes status contentLength
  let connection ← connectionBytes status
  let reset ← resetContentBytes status
  let headSize ← addSize (← addSize (← addSize (← addSize 15 reasonPhrase.length) framing) connection) reset
  headers.foldlM (fun headSize header => do addSize headSize (← fieldSize headSize header)) headSize

/-- The Content-Length line in `serialized_head_size`. -/
def addContentLength (response : HttpResponse) (size : ℕ) : Option ℕ :=
  if statusOmitsContentLength response.statusCode then some size
  else do addSize size (← addSize 18 (decimalDigitCount response.contentLength))

/-- The lines of a final response in `serialized_head_size`. -/
def addConnection (response : HttpResponse) (size : ℕ) : Option ℕ :=
  if HttpStatusCode.ok.value ≤ response.statusCode.value then do
    addSize size (← addSize (ascii "Connection: close\r\n").length responseDateFieldBytes)
  else some size

def serializedHeadSize (response : HttpResponse) : Option ℕ := do
  let size ← addSize (← addSize 15 response.reasonPhrase.length) 2
  let fields ← response.headers.foldlM (fun current header => do
    addSize (← addSize (← addSize current header.name.length) header.value.length) 4) 0
  addConnection response (← addContentLength response (← addSize size fields))

def statusLine (status : HttpStatusCode) (reasonPhrase : Bytes) : Bytes :=
  ascii "HTTP/1.1 " ++ decimalText status.value ++ ascii " " ++ reasonPhrase

def fieldLine (header : HttpResponseHeader) : Bytes := header.name ++ ascii ": " ++ header.value

/-- The framing of a message: no length for 1xx, 204 and 304, and no date before 200. -/
def managedLines (status : HttpStatusCode) (contentLength : ℕ) (date : Bytes) : List Bytes :=
  (if (100 ≤ status.value ∧ status.value < 200) ∨ status.value = 204 ∨ status.value = 304 then []
    else [ascii "Content-Length: " ++ decimalText contentLength]) ++
  if 200 ≤ status.value then [ascii "Connection: close",ascii "Date: " ++ date] else []

def managedNames : List Bytes :=
  [ascii "Content-Length",ascii "Transfer-Encoding",ascii "Connection",ascii "Keep-Alive",ascii "Date"]

/-- The name in front of the colon is one of the writer's, in any case. -/
def isManagedLine (line : Bytes) : Bool :=
  managedNames.any (asciiCaseInsensitiveEqual (line.takeWhile (· ≠ char ':')))

/-- A response that one of the factories has made, with the length that it declares. -/
def Created (date : Bytes) (status : HttpStatusCode) (reasonPhrase : Bytes) (headers : List HttpResponseHeader)
    (contentLength : ℕ) (response : HttpResponse) : Prop :=
  (∃ body, contentLength = body.length ∧
    HttpResponse.create date status reasonPhrase headers body = .ok response) ∨
  ∃ reader, HttpResponse.createStreaming date status reasonPhrase headers contentLength reader = .ok response

structure CleanField (header : HttpResponseHeader) : Prop where
  name : IsToken header.name
  value : header.value.all isHttpFieldValueByte = true
  own : ∀ managed ∈ managedNames, asciiCaseInsensitiveEqual header.name managed = false

theorem validateHeader_ok {header : HttpResponseHeader} {index remaining size : ℕ}
    (h : validateHeader header index remaining = .ok size) : CleanField header ∧
      size = header.name.length + header.value.length + 4 ∧ size ≤ remaining := by
  simp only [validateHeader] at h
  split at h
  · cases h
  rename_i hname
  split at h
  · cases h
  rename_i hvalue
  split at h
  · cases h
  rename_i hframing
  split at h
  · cases h
  rename_i hconnection
  split at h
  · cases h
  rename_i hdate
  split at h
  · cases h
  rename_i hroom
  obtain rfl := Except.ok.inj h
  refine ⟨⟨?_,by simpa using hvalue,?_⟩,rfl,by omega⟩
  · simpa [IsToken] using hname
  · simp only [Bool.or_eq_true,not_or,Bool.not_eq_true] at hframing hconnection hdate
    simp [managedNames,hframing,hconnection,hdate]

/-- What the loop over the fields accepts: clean fields that fit together. -/
theorem validateHeaders_ok {headers : List HttpResponseHeader} {index headSize : ℕ} (hsize : headSize ≤ maximumHeadBytes)
    (h : validateHeaders headers index headSize = .ok ()) : (∀ header ∈ headers, CleanField header) ∧
      headSize + (headers.map (fun header => header.name.length + header.value.length + 4)).sum ≤ maximumHeadBytes := by
  induction headers generalizing index headSize with
  | nil => exact ⟨nofun,hsize⟩
  | cons header rest ih =>
    rw [validateHeaders] at h
    split at h
    · cases h
    · rename_i size hheader
      obtain ⟨hclean,rfl,hroom⟩ := validateHeader_ok hheader
      obtain ⟨hrest,htotal⟩ := ih (by omega) h
      refine ⟨List.forall_mem_cons.mpr ⟨hclean,hrest⟩,?_⟩
      rw [List.map_cons,List.sum_cons,← Nat.add_assoc]
      exact htotal

structure Checked (status : HttpStatusCode) (reasonPhrase : Bytes) (headers : List HttpResponseHeader)
    (contentLength : ℕ) : Prop where
  range : 100 ≤ status.value ∧ status.value ≤ 599
  reason : reasonPhrase.all isHttpFieldValueByte = true
  fields : ∀ header ∈ headers, CleanField header
  body : statusHasNoMessageBody status = true → contentLength = 0
  fits : fixedHeadSize status reasonPhrase contentLength +
    (headers.map (fun header => header.name.length + header.value.length + 4)).sum ≤ maximumHeadBytes

theorem validateResponse_ok {status : HttpStatusCode} {reasonPhrase : Bytes} {headers : List HttpResponseHeader}
    {contentLength : ℕ} (h : validateResponse status reasonPhrase headers contentLength = .ok ()) :
    Checked status reasonPhrase headers contentLength := by
  unfold validateResponse at h
  split at h
  · cases h
  rename_i hstatus
  split at h
  · cases h
  rename_i hreason
  split at h
  · cases h
  rename_i hbody
  split at h
  · cases h
  split at h
  · cases h
  rename_i hfixed
  obtain ⟨hfields,hfits⟩ := validateHeaders_ok (Nat.not_lt.mp hfixed) h
  refine ⟨?_,by simpa using hreason,hfields,by simpa using hbody,hfits⟩
  simp only [Bool.or_eq_true,decide_eq_true_eq,not_or,Nat.not_lt] at hstatus
  exact hstatus

theorem Created.checked {date : Bytes} {status : HttpStatusCode} {reasonPhrase : Bytes}
    {headers : List HttpResponseHeader} {contentLength : ℕ} {response : HttpResponse}
    (h : Created date status reasonPhrase headers contentLength response) :
    Checked status reasonPhrase headers contentLength ∧ response.statusCode = status ∧
      response.reasonPhrase = reasonPhrase ∧ response.headers = headers ∧ response.contentLength = contentLength ∧
        response.dateValue = originationDate status date := by
  rcases h with ⟨body,rfl,h⟩ | ⟨reader,h⟩
  · unfold HttpResponse.create at h
    split at h
    · cases h
    · split at h
      · cases h
      · rename_i hvalid
        obtain rfl := Except.ok.inj h
        exact ⟨validateResponse_ok hvalid,rfl,rfl,rfl,rfl,rfl⟩
  · unfold HttpResponse.createStreaming at h
    split at h
    · cases h
    · split at h
      · cases h
      · split at h
        · cases h
        · rename_i hvalid
          obtain rfl := Except.ok.inj h
          exact ⟨validateResponse_ok hvalid,rfl,rfl,rfl,rfl,rfl⟩

section
variable {date : Bytes} {status : HttpStatusCode} {reasonPhrase : Bytes} {headers : List HttpResponseHeader}
  {contentLength : ℕ} {response : HttpResponse}

/-- The lines of the head before the empty one. -/
def headLines (date : Bytes) (status : HttpStatusCode) (reasonPhrase : Bytes) (headers : List HttpResponseHeader)
    (contentLength : ℕ) : List Bytes :=
  statusLine status reasonPhrase :: headers.map fieldLine ++ managedLines status contentLength date

theorem statusOmitsContentLength_iff : statusOmitsContentLength status = true ↔
    (100 ≤ status.value ∧ status.value < 200) ∨ status.value = 204 ∨ status.value = 304 := by
  rcases status with ⟨value⟩
  simp only [statusOmitsContentLength,Bool.or_eq_true,Bool.and_eq_true,decide_eq_true_eq,or_assoc,
    HttpStatusCode.noContent,HttpStatusCode.notModified,HttpStatusCode.mk.injEq]
  rfl

theorem serializeHttpResponseHead_lines (h : Created date status reasonPhrase headers contentLength response) :
    serializeHttpResponseHead response =
      (headLines date status reasonPhrase headers contentLength ++ [[]]).flatMap (· ++ crlf) := by
  obtain ⟨-,hstatus,hreason,hheaders,hlength,hdate⟩ := h.checked
  have hclose : ascii "Connection: close\r\nDate: " = ascii "Connection: close" ++ crlf ++ ascii "Date: " := by decide
  have hok : HttpStatusCode.ok.value = 200 := rfl
  unfold serializeHttpResponseHead headLines managedLines
  rw [hstatus,hreason,hheaders,hlength,hdate,originationDate,hclose,hok]
  simp only [← statusOmitsContentLength_iff]
  cases statusOmitsContentLength status <;> by_cases hfinal : 200 ≤ status.value <;>
    simp [hfinal,statusLine,fieldLine,List.flatMap_map]

theorem statusHasNoMessageBody_iff : statusHasNoMessageBody status = true ↔
    statusOmitsContentLength status = true ∨ status = .resetContent := by
  simp only [statusHasNoMessageBody,statusOmitsContentLength,Bool.or_eq_true,decide_eq_true_eq,or_assoc]
  rw [or_comm (a := status = .resetContent)]

theorem resetContent_ne_omits (h : statusOmitsContentLength status = true) : status ≠ .resetContent := by
  rintro rfl
  exact absurd h (by decide)

/-- The bytes of the Content-Length line with the final empty line, as validation counts them. -/
def framingSize (status : HttpStatusCode) (contentLength : ℕ) : ℕ :=
  if statusOmitsContentLength status then 2 else 18 + decimalDigitCount contentLength + 2

/-- The two corrections for statuses without a body meet: only 205 declares the length of its empty body. -/
theorem fixedHeadSize_eq (h : statusHasNoMessageBody status = true → contentLength = 0) :
    fixedHeadSize status reasonPhrase contentLength =
      15 + reasonPhrase.length + framingSize status contentLength + if 200 ≤ status.value then 19 + 37 else 0 := by
  have hconnection : (if HttpStatusCode.ok.value ≤ status.value then
      (ascii "Connection: close\r\n").length + responseDateFieldBytes else 0) =
        if 200 ≤ status.value then 19 + 37 else 0 := rfl
  unfold fixedHeadSize framingSize
  dsimp only
  rw [hconnection]
  by_cases homits : statusOmitsContentLength status = true
  · rw [if_pos (statusHasNoMessageBody_iff.mpr (Or.inl homits)),if_pos homits,if_neg (resetContent_ne_omits homits),
      Nat.add_zero]
  · by_cases hreset : status = .resetContent
    · have hbody := statusHasNoMessageBody_iff.mpr (Or.inr hreset)
      have hdigit : decimalDigitCount 0 = 1 := by rw [decimalDigitCount,if_pos (by decide)]
      rw [if_pos hbody,if_neg homits,if_pos hreset,h hbody,hdigit]
      omega
    · rw [if_neg (by rw [statusHasNoMessageBody_iff]; tauto),if_neg homits,if_neg hreset,Nat.add_zero]

theorem decimalText_length (n : ℕ) : (decimalText n).length = decimalDigitCount n := by
  fun_induction decimalDigitCount n with
  | case1 n h => exact (toDecimal_length n).trans (if_pos h)
  | case2 n h ih => exact (toDecimal_length n).trans ((if_neg h).trans (congrArg (· + 1) ih))

theorem statusDigits (h : 100 ≤ status.value ∧ status.value ≤ 599) : (decimalText status.value).length = 3 := by
  have hsmall : status.value / 10 / 10 < 10 := by omega
  rw [decimalText_length,decimalDigitCount,if_neg (by omega),decimalDigitCount,if_neg (by omega),decimalDigitCount,
    if_pos hsmall]

/-- The size of a head is what `validate_response` counts. -/
theorem serializeHttpResponseHead_length (h : Created date status reasonPhrase headers contentLength response)
    (hdate : date.length = 29) : (serializeHttpResponseHead response).length =
      fixedHeadSize status reasonPhrase contentLength +
        (headers.map (fun header => header.name.length + header.value.length + 4)).sum := by
  obtain ⟨hchecked,hstatus,hreason,hheaders,hlength,horigin⟩ := h.checked
  have hfields : (headers.flatMap (fun header => header.name ++ ascii ": " ++ header.value ++ crlf)).length =
      (headers.map (fun header => header.name.length + header.value.length + 4)).sum := by
    rw [List.length_flatMap]
    refine congrArg List.sum (List.map_congr_left fun header _ => ?_)
    have hseparator : (ascii ": ").length = 2 := rfl
    have hend : crlf.length = 2 := rfl
    rw [List.length_append,List.length_append,List.length_append,hseparator,hend]
    omega
  have hframing : (if statusOmitsContentLength status then []
      else ascii "Content-Length: " ++ decimalText contentLength ++ crlf : Bytes).length + 2 =
        framingSize status contentLength := by
    unfold framingSize
    split
    · rfl
    · have hname : (ascii "Content-Length: ").length = 16 := by decide
      have hend : crlf.length = 2 := rfl
      rw [List.length_append,List.length_append,decimalText_length,hname,hend]
      omega
  have hconnection : (if HttpStatusCode.ok.value ≤ status.value then
      ascii "Connection: close\r\nDate: " ++ originationDate status date ++ crlf else []).length =
        if 200 ≤ status.value then 19 + 37 else 0 := by
    have hok : HttpStatusCode.ok.value = 200 := rfl
    rw [hok,originationDate,hok]
    split
    · have hnames : (ascii "Connection: close\r\nDate: ").length = 25 := by decide
      have hend : crlf.length = 2 := rfl
      rw [List.length_append,List.length_append,hnames,hend,hdate]
    · rfl
  have hversion : (ascii "HTTP/1.1 ").length = 9 := by decide
  have hspace : (ascii " ").length = 1 := by decide
  have hend : crlf.length = 2 := rfl
  rw [fixedHeadSize_eq hchecked.body,← hframing,← hconnection,← hfields]
  unfold serializeHttpResponseHead
  rw [hstatus,hreason,hheaders,hlength,horigin]
  simp only [List.length_append,statusDigits hchecked.range,hversion,hspace,hend]
  omega

theorem addSize_eq {a b : ℕ} (h : a + b ≤ maximumHeadBytes) : addSize a b = some (a + b) := by
  have hsize : maximumHeadBytes ≤ sizeMax := by decide
  exact if_pos (h.trans hsize)

theorem subSize_eq {a b : ℕ} (h : b ≤ a) : subSize a b = some (a - b) := if_pos h

theorem fieldSize_eq {headSize : ℕ} {header : HttpResponseHeader}
    (h : headSize + (header.name.length + header.value.length + 4) ≤ maximumHeadBytes) :
    fieldSize headSize header = some (header.name.length + header.value.length + 4) := by
  unfold fieldSize
  rw [subSize_eq (by omega),Option.bind_eq_bind,Option.bind_some,subSize_eq (by omega),Option.bind_some,
    subSize_eq (by omega),Option.bind_some,addSize_eq (by omega),Option.bind_some,addSize_eq (by omega)]

theorem predictedFields (headers : List HttpResponseHeader) (headSize : ℕ)
    (h : headSize + (headers.map (fun header => header.name.length + header.value.length + 4)).sum ≤ maximumHeadBytes) :
    headers.foldlM (fun headSize header => do addSize headSize (← fieldSize headSize header)) headSize =
      some (headSize + (headers.map (fun header => header.name.length + header.value.length + 4)).sum) := by
  induction headers generalizing headSize with
  | nil => rfl
  | cons header rest ih =>
    rw [List.map_cons,List.sum_cons,← Nat.add_assoc] at h ⊢
    rw [List.foldlM_cons,fieldSize_eq (by omega),Option.bind_eq_bind,Option.bind_some,addSize_eq (by omega),
      Option.bind_some]
    exact ih _ h

theorem serializedFields (headers : List HttpResponseHeader) (current : ℕ)
    (h : current + (headers.map (fun header => header.name.length + header.value.length + 4)).sum ≤ maximumHeadBytes) :
    headers.foldlM (fun current header => do
      addSize (← addSize (← addSize current header.name.length) header.value.length) 4) current =
      some (current + (headers.map (fun header => header.name.length + header.value.length + 4)).sum) := by
  induction headers generalizing current with
  | nil => rfl
  | cons header rest ih =>
    rw [List.map_cons,List.sum_cons] at h ⊢
    rw [List.foldlM_cons,addSize_eq (by omega),Option.bind_eq_bind,Option.bind_some,addSize_eq (by omega),
      Option.bind_some,addSize_eq (by omega),Option.bind_some]
    refine (ih _ (by omega)).trans (congrArg some ?_)
    omega

theorem predictedHeadSize_eq (h : Checked status reasonPhrase headers contentLength) :
    predictedHeadSize status reasonPhrase headers contentLength =
      some (fixedHeadSize status reasonPhrase contentLength +
        (headers.map (fun header => header.name.length + header.value.length + 4)).sum) := by
  let framing := if statusHasNoMessageBody status then 2 else 18 + decimalDigitCount contentLength + 2
  let connection := if HttpStatusCode.ok.value ≤ status.value then
    (ascii "Connection: close\r\n").length + responseDateFieldBytes else 0
  let reset := if status = .resetContent then 18 + 1 else 0
  have hfixed : fixedHeadSize status reasonPhrase contentLength =
    15 + reasonPhrase.length + framing + connection + reset := rfl
  have hfits := h.fits
  have hfields := predictedFields headers _ hfits
  have hframing : framingBytes status contentLength = some framing := by
    dsimp only [framing] at hfixed ⊢
    unfold framingBytes
    split
    · rfl
    · rename_i hbody
      rw [if_neg hbody] at hfixed
      rw [addSize_eq (by omega),Option.bind_eq_bind,Option.bind_some,addSize_eq (by omega)]
  have hconnection : connectionBytes status = some connection := by
    dsimp only [connection]
    unfold connectionBytes
    split <;> rfl
  have hreset : resetContentBytes status = some reset := by
    dsimp only [reset]
    unfold resetContentBytes
    split <;> rfl
  rw [predictedHeadSize,hframing,hconnection,hreset]
  simp only [Option.bind_eq_bind,Option.bind_some]
  rw [addSize_eq (by omega),Option.bind_some,addSize_eq (by omega),Option.bind_some,addSize_eq (by omega),
    Option.bind_some,addSize_eq (by omega),Option.bind_some,← hfixed]
  exact hfields

theorem serializedHeadSize_eq (h : Created date status reasonPhrase headers contentLength response) :
    serializedHeadSize response =
      some (fixedHeadSize status reasonPhrase contentLength +
        (headers.map (fun header => header.name.length + header.value.length + 4)).sum) := by
  obtain ⟨hchecked,hstatus,hreason,hheaders,hlength,-⟩ := h.checked
  have hfits := hchecked.fits
  rw [fixedHeadSize_eq hchecked.body] at hfits ⊢
  generalize hsum : (headers.map (fun header => header.name.length + header.value.length + 4)).sum = sum at hfits ⊢
  have hfields := serializedFields headers 0 (by omega)
  rw [hsum,Nat.zero_add] at hfields
  have hframing : 2 ≤ framingSize status contentLength := by
    unfold framingSize
    split <;> omega
  have hcontent : ∀ size, size + framingSize status contentLength ≤ maximumHeadBytes + 2 →
      addContentLength response size = some (size + framingSize status contentLength - 2) := by
    intro size hsize
    rw [addContentLength,hstatus,hlength]
    unfold framingSize at hsize ⊢
    split
    · rfl
    · rename_i homits
      rw [if_neg homits] at hsize
      rw [addSize_eq (by omega),Option.bind_eq_bind,Option.bind_some,addSize_eq (by omega)]
      congr 1
  have hconnection : ∀ size, size + (if 200 ≤ status.value then 19 + 37 else 0) ≤ maximumHeadBytes →
      addConnection response size = some (size + if 200 ≤ status.value then 19 + 37 else 0) := by
    intro size hsize
    have hok : HttpStatusCode.ok.value = 200 := rfl
    have hclose : (ascii "Connection: close\r\n").length = 19 := by decide
    rw [addConnection,hstatus,hok,hclose,responseDateFieldBytes]
    split
    · rename_i hfinal
      rw [if_pos hfinal] at hsize
      rw [addSize_eq (by decide),Option.bind_eq_bind,Option.bind_some,addSize_eq hsize]
    · rfl
  rw [serializedHeadSize,hreason,hheaders]
  simp only [Option.bind_eq_bind] at hfields ⊢
  rw [addSize_eq (by omega),Option.bind_some,addSize_eq (by omega),Option.bind_some,hfields,Option.bind_some,
    addSize_eq (by omega),Option.bind_some,hcontent _ (by omega),Option.bind_some,hconnection _ (by omega)]
  congr 1
  omega

theorem decimalText_no_cr (n : ℕ) : cr ∉ decimalText n := not_mem_of_all (toDecimal_digits n) (by decide)

theorem statusLine_no_cr (h : reasonPhrase.all isHttpFieldValueByte = true) : cr ∉ statusLine status reasonPhrase := by
  simp only [statusLine,List.mem_append,not_or]
  exact ⟨⟨⟨by decide,decimalText_no_cr _⟩,by decide⟩,(not_mem_of_fieldValue h).1⟩

theorem fieldLine_no_cr {header : HttpResponseHeader} (h : CleanField header) : cr ∉ fieldLine header := by
  simp only [fieldLine,List.mem_append,not_or]
  exact ⟨⟨(not_mem_of_token h.name).1,by decide⟩,(not_mem_of_fieldValue h.value).1⟩

theorem managedLines_no_cr (hdate : cr ∉ date) : ∀ line ∈ managedLines status contentLength date, cr ∉ line ∧ line ≠ [] := by
  intro line hmem
  rcases List.mem_append.mp hmem with hmem | hmem
  · split at hmem
    · cases hmem
    · obtain rfl := List.mem_singleton.mp hmem
      refine ⟨?_,by simp [ascii]⟩
      rw [List.mem_append,not_or]
      exact ⟨by decide,decimalText_no_cr _⟩
  · split at hmem
    · rcases List.mem_cons.mp hmem with rfl | hmem
      · exact ⟨by decide,by decide⟩
      · obtain rfl := List.mem_singleton.mp hmem
        refine ⟨?_,by simp [ascii]⟩
        rw [List.mem_append,not_or]
        exact ⟨by decide,hdate⟩
    · cases hmem

/-- No line but the last is empty, and none holds a terminator. -/
theorem headLines_no_cr (h : Checked status reasonPhrase headers contentLength) (hdate : cr ∉ date) :
    ∀ line ∈ headLines date status reasonPhrase headers contentLength, cr ∉ line ∧ line ≠ [] := by
  intro line hmem
  rw [headLines,List.cons_append,List.mem_cons,List.mem_append,List.mem_map] at hmem
  rcases hmem with rfl | ⟨header,hmem,rfl⟩ | hmem
  · exact ⟨statusLine_no_cr h.reason,by simp [statusLine,ascii]⟩
  · refine ⟨fieldLine_no_cr (h.fields header hmem),?_⟩
    rw [fieldLine,ne_eq,List.append_eq_nil_iff,List.append_eq_nil_iff]
    exact fun hempty => (h.fields header hmem).name.1 hempty.1.1
  · exact managedLines_no_cr hdate line hmem

/-- The name of a field line ends at the first colon. -/
theorem takeWhile_name {name : Bytes} (hname : char ':' ∉ name) (value : Bytes) :
    (name ++ ascii ": " ++ value).takeWhile (· ≠ char ':') = name := by
  have hcolon : (ascii ": " ++ value).head? = some (char ':') := rfl
  rw [List.append_assoc]
  refine takeWhile_append_of ?_ ?_
  · rw [List.all_eq_true]
    exact fun b hmem => decide_eq_true (fun hb => hname (hb ▸ hmem))
  · intro x hx
    rw [hcolon] at hx
    obtain rfl := Option.some.inj hx
    decide

theorem fieldLine_not_managed {header : HttpResponseHeader} (h : CleanField header) :
    isManagedLine (fieldLine header) = false := by
  rw [isManagedLine,fieldLine,takeWhile_name (not_mem_of_all h.name.2 (by decide)),List.any_eq_false]
  intro managed hmem
  rw [h.own managed hmem]
  decide

/-- The status line begins with the name of the protocol. -/
theorem statusLine_not_managed : isManagedLine (statusLine status reasonPhrase) = false := by
  have hletter : char 'H' ≠ char ':' := by decide
  have hfirst : ∀ managed ∈ managedNames, (managed.map asciiLower).head? ≠ some (asciiLower (char 'H')) := by decide
  have hname : (statusLine status reasonPhrase).takeWhile (· ≠ char ':') = char 'H' ::
      (ascii "TTP/1.1 " ++ decimalText status.value ++ ascii " " ++ reasonPhrase).takeWhile (· ≠ char ':') :=
    List.takeWhile_cons_of_pos (decide_eq_true hletter)
  rw [isManagedLine,hname,List.any_eq_false]
  intro managed hmem hequal
  rw [asciiCaseInsensitiveEqual_iff] at hequal
  apply hfirst managed hmem
  rw [← hequal]
  rfl

theorem managedLines_managed (date : Bytes) : ∀ line ∈ managedLines status contentLength date, isManagedLine line = true := by
  have hcontent : ascii "Content-Length: " = ascii "Content-Length" ++ ascii ": " := by decide
  have hname : ascii "Date: " = ascii "Date" ++ ascii ": " := by decide
  intro line hmem
  rcases List.mem_append.mp hmem with hmem | hmem
  · split at hmem
    · cases hmem
    · rw [List.mem_singleton.mp hmem,isManagedLine,hcontent,takeWhile_name (by decide)]
      decide
  · split at hmem
    · rcases List.mem_cons.mp hmem with rfl | hmem
      · decide
      · rw [List.mem_singleton.mp hmem,isManagedLine,hname,takeWhile_name (by decide)]
        decide
    · cases hmem

/-- The lines with a name of the writer are those that the writer has emitted. -/
theorem headLines_managed (h : Checked status reasonPhrase headers contentLength) (date : Bytes) :
    (headLines date status reasonPhrase headers contentLength).filter isManagedLine =
      managedLines status contentLength date := by
  have hfields : (headers.map fieldLine).filter isManagedLine = [] := by
    rw [List.filter_eq_nil_iff]
    intro line hmem
    obtain ⟨header,hheader,rfl⟩ := List.mem_map.mp hmem
    rw [fieldLine_not_managed (h.fields header hheader)]
    decide
  rw [headLines,List.cons_append,List.filter_cons_of_neg (by rw [statusLine_not_managed]; decide),List.filter_append,
    hfields,List.nil_append,List.filter_eq_self]
  exact managedLines_managed date

/-- The head of an accepted response splits into the lines that were meant, and its size is the predicted one. -/
theorem serializeHttpResponseHead_exact (h : Created date status reasonPhrase headers contentLength response)
    (hdate : date.length = 29 ∧ cr ∉ date ∧ lf ∉ date) :
    splitLines (serializeHttpResponseHead response) =
      (statusLine status reasonPhrase :: headers.map fieldLine ++ managedLines status contentLength date ++ [[]],[]) ∧
    (splitLines (serializeHttpResponseHead response)).1.filter isManagedLine = managedLines status contentLength date ∧
    (∀ before after, serializeHttpResponseHead response = before ++ crlf ++ crlf ++ after → after = []) ∧
    serializedHeadSize response = some (serializeHttpResponseHead response).length ∧
    predictedHeadSize status reasonPhrase headers contentLength =
      some (serializeHttpResponseHead response).length ∧
    (serializeHttpResponseHead response).length ≤ maximumHeadBytes := by
  have hchecked := h.checked.1
  have hlines := headLines_no_cr hchecked hdate.2.1
  have htext := serializeHttpResponseHead_lines h
  have hlength := serializeHttpResponseHead_length h hdate.1
  have hsplit : splitLines (serializeHttpResponseHead response) =
      (headLines date status reasonPhrase headers contentLength ++ [[]],[]) := by
    rw [htext]
    apply splitLines_lines
    intro line hmem
    rcases List.mem_append.mp hmem with hmem | hmem
    · exact (hlines line hmem).1
    · rw [List.mem_singleton.mp hmem]
      exact List.not_mem_nil
  refine ⟨hsplit,?_,?_,?_,?_,?_⟩
  · have hlast : [[]].filter isManagedLine = [] := by decide
    rw [hsplit,List.filter_append,hlast,List.append_nil,headLines_managed hchecked]
  · intro before after heq
    exact crlf_pair_at_end hlines (htext.symm.trans heq)
  · rw [hlength,serializedHeadSize_eq h]
  · rw [hlength,predictedHeadSize_eq hchecked]
  · rw [hlength]
    exact hchecked.fits

/-- The fixed part of a head with a short body. -/
theorem fixedHeadSize_ok {contentLength : ℕ} (h : contentLength < 10) :
    fixedHeadSize .ok (ascii "OK") contentLength = 94 := by
  have hdigits : decimalDigitCount contentLength = 1 := by rw [decimalDigitCount,if_pos h]
  rw [fixedHeadSize_eq (fun hbody => absurd hbody (by decide)),framingSize,hdigits]
  decide

/-- A response with one field and an empty body. -/
theorem serializeHttpResponseHead_exact_empty : ∃ response,
    Created (ascii "Sun, 06 Nov 1994 08:49:37 GMT") .ok (ascii "OK") [⟨ascii "X-Name",ascii "a: b"⟩] 0 response ∧
    splitLines (serializeHttpResponseHead response) =
      ([ascii "HTTP/1.1 200 OK",ascii "X-Name: a: b",ascii "Content-Length: 0",ascii "Connection: close",
        ascii "Date: Sun, 06 Nov 1994 08:49:37 GMT",[]],[]) := by
  have hvalid : validateResponse .ok (ascii "OK") [⟨ascii "X-Name",ascii "a: b"⟩] 0 = .ok () := by
    unfold validateResponse
    rw [fixedHeadSize_ok (by decide)]
    decide
  have hcreate : HttpResponse.create (ascii "Sun, 06 Nov 1994 08:49:37 GMT") .ok (ascii "OK")
      [⟨ascii "X-Name",ascii "a: b"⟩] [] = .ok
        { statusCode := .ok
          reasonPhrase := ascii "OK"
          headers := [⟨ascii "X-Name",ascii "a: b"⟩]
          memoryBody := []
          contentLength := 0
          dateValue := ascii "Sun, 06 Nov 1994 08:49:37 GMT"
          bodyReader := none } := by
    rw [HttpResponse.create,if_neg (by decide),List.length_nil,hvalid]
    rfl
  have hcreated : Created (ascii "Sun, 06 Nov 1994 08:49:37 GMT") .ok (ascii "OK") [⟨ascii "X-Name",ascii "a: b"⟩] 0 _ :=
    Or.inl ⟨[],rfl,hcreate⟩
  refine ⟨_,hcreated,(serializeHttpResponseHead_exact hcreated ⟨by decide,by decide,by decide⟩).1.trans ?_⟩
  decide

end

end SpareNode.Http
