import SpareNode.Application.ReadExclusion
import SpareNode.Http.Api.JsonResponse
import SpareNode.Http.MimeTypeLookup
import SpareNode.Http.Transport.BodySource

/-! # Downloads

`handle_file`: the response to a request for a file, whose body is read from the open file while it is sent. The
head announces the size that was captured when the file was opened, and its media type comes from the name.
What goes out as the body is what the file held at each position when that position was read.
-/
namespace SpareNode.Http.Api
open LexicalPath FileTree Filesystem Application Concurrency Transmission

variable {fs opened : Tree}

/-- The body reader of `make_file_response`, with what each of its calls meets. -/
def fileSource (deadline : Option ℤ) (answers : ℕ → FileReadAnswers) : BodySource (FilesystemFileRead opened) :=
  fun call file requested =>
    match file.read requested deadline (answers call) with
    | (.ok bytes,file) => (.produced bytes,file)
    | (.error error,file) =>
      (.failed ⟨if error.code = .cancelled then .cancellation else .filesystem,error.code.value⟩,file)

def fileHeaders (contentType : Bytes) : List HttpResponseHeader :=
  [⟨ascii "Content-Type",contentType⟩,⟨ascii "Content-Disposition",ascii "inline"⟩,
    ⟨ascii "X-Content-Type-Options",ascii "nosniff"⟩]

/-- `make_file_response`; `date` is the formatted clock. -/
def makeFileResponse (date : Bytes) (deadline : Option ℤ) (answers : ℕ → FileReadAnswers)
    (stream : FilesystemFileRead opened) (contentType : Bytes) : RouteResult :=
  match HttpResponse.createStreaming date .ok (httpReasonPhrase .ok) (fileHeaders contentType) stream.size
    (some (sourceReader (fileSource deadline answers) stream stream.size)) with
  | .error e => .error ⟨.responseValidationFailure,e.code.value⟩
  | .ok response => .ok response

def handleFile (date : Bytes) (deadline : Option ℤ) (answers : ℕ → FileReadAnswers)
    (stream : FilesystemFileRead opened) (mimeTypes : MimeTypeRegistry) (requestedPath : Bytes) : RouteResult :=
  let contentType := match decodePathRequest requestedPath with
    | .ok decodedPath => mimeTypes.contentTypeForPath decodedPath
    | .error _ => mimeTypes.contentTypeForPath []
  makeFileResponse date deadline answers stream contentType

/-- A media type consists of field values, whatever its case. -/
theorem mediaType_clean {value : Bytes} (h : IsMediaType value) :
    (value.map asciiLower).all isHttpFieldValueByte = true := by
  have hlower : ∀ b, (b = char '/' ∨ isHttpTokenCharacter b = true) → isHttpFieldValueByte (asciiLower b) = true :=
    forall_byte (by decide +kernel)
  obtain ⟨type,subtype,rfl,htype,hsubtype⟩ := h.parts
  rw [List.all_map,List.all_eq_true]
  intro b hb
  apply hlower
  rcases List.mem_append.mp hb with hb | hb
  · exact Or.inr (List.all_eq_true.mp htype.2 b hb)
  · rcases List.mem_cons.mp hb with rfl | hb
    · exact Or.inl rfl
    · exact Or.inr (List.all_eq_true.mp hsubtype.2 b hb)

theorem contentTypeForPath_clean (registry : MimeTypeRegistry) (path : Bytes) :
    (registry.contentTypeForPath path).all isHttpFieldValueByte = true ∧
      (registry.contentTypeForPath path).length ≤ maximumMediaTypeBytes := by
  have hfallback : binaryFallback.all isHttpFieldValueByte = true ∧ binaryFallback.length ≤ maximumMediaTypeBytes := by
    decide +kernel
  have htext : safeTextType.all isHttpFieldValueByte = true ∧ safeTextType.length ≤ maximumMediaTypeBytes := by
    decide +kernel
  unfold MimeTypeRegistry.contentTypeForPath
  split
  · exact hfallback
  · split
    · exact hfallback
    · split
      · exact hfallback
      · dsimp only
        split
        · exact htext
        · split
          · exact hfallback
          · rename_i mapping hmapping
            split
            · exact hfallback
            · split
              · exact htext
              · obtain ⟨source,hnormalizes⟩ := registry.sorted.normalized mapping (List.mem_of_getElem? hmapping)
                have hmedia := (isValidMediaType_iff _).mp hnormalizes.valid
                rw [hnormalizes.mediaType,List.length_map]
                exact ⟨mediaType_clean hmedia,hmedia.size⟩

theorem fileHeaders_clean {contentType : Bytes} (h : contentType.all isHttpFieldValueByte = true) :
    ∀ header ∈ fileHeaders contentType, CleanField header := by
  have hname : IsToken (ascii "Content-Type") ∧ ∀ managed ∈ managedNames,
      asciiCaseInsensitiveEqual (ascii "Content-Type") managed = false := ⟨⟨by decide,by decide⟩,by decide⟩
  have hrest : ∀ header ∈ (fileHeaders []).tail, IsToken header.name ∧ header.value.all isHttpFieldValueByte = true ∧
      ∀ managed ∈ managedNames, asciiCaseInsensitiveEqual header.name managed = false := by
    simp only [fileHeaders,List.tail_cons,List.forall_mem_cons]
    exact ⟨⟨⟨by decide,by decide⟩,by decide +kernel,by decide⟩,⟨⟨by decide,by decide⟩,by decide +kernel,by decide⟩,
      by simp⟩
  intro header hheader
  rcases List.mem_cons.mp hheader with rfl | hheader
  · exact ⟨hname.1,h,hname.2⟩
  · obtain ⟨htoken,hvalue,hown⟩ := hrest header hheader
    exact ⟨htoken,hvalue,hown⟩

/-- A file of any size that the system can report makes a response. -/
theorem makeFileResponse_ok (date : Bytes) (deadline : Option ℤ) (answers : ℕ → FileReadAnswers)
    {stream : FilesystemFileRead opened} {contentType : Bytes} (hsize : stream.size < 2 ^ 63)
    (hclean : contentType.all isHttpFieldValueByte = true) (hshort : contentType.length ≤ maximumMediaTypeBytes) :
    ∃ response, makeFileResponse date deadline answers stream contentType = .ok response ∧
      response.statusCode = .ok ∧ response.headers = fileHeaders contentType ∧
      response.contentLength = stream.size ∧
      response.bodyReader = some (sourceReader (fileSource deadline answers) stream response.contentLength) := by
  have hdigits : decimalDigitCount stream.size ≤ 19 := by
    rw [← decimalText_length]
    exact toDecimal_length_le (hsize.trans (by decide)) (by decide)
  have hphrase := httpReasonPhrase_clean .ok
  have hbody : statusHasNoMessageBody .ok = false := by decide
  have hvalid : validateResponse .ok (httpReasonPhrase .ok) (fileHeaders contentType) stream.size = .ok () := by
    apply validateResponse_iff.mpr
    refine ⟨⟨by decide,hphrase.1,fileHeaders_clean hclean,?_,?_⟩,by simp [fileHeaders,maximumHeaderCount]⟩
    · rw [hbody]
      exact nofun
    · have hfields : ((fileHeaders contentType).map (fun header => header.name.length + header.value.length + 4)).sum =
          contentType.length + 78 := by
        have hnames : (ascii "Content-Type").length = 12 ∧ (ascii "Content-Disposition").length = 19 ∧
            (ascii "inline").length = 6 ∧ (ascii "X-Content-Type-Options").length = 22 ∧
            (ascii "nosniff").length = 7 := by decide
        simp only [fileHeaders,List.map_cons,List.map_nil,List.sum_cons,List.sum_nil,hnames]
        omega
      have homits : statusOmitsContentLength .ok = false := by decide
      rw [maximumMediaTypeBytes] at hshort
      rw [fixedHeadSize_eq (by rw [hbody]; exact nofun),framingSize,homits,if_neg (by decide),if_pos (by decide),hfields,
        maximumHeadBytes]
      have := hphrase.2
      omega
  rw [makeFileResponse,HttpResponse.createStreaming,hbody,if_neg (by decide),hvalid]
  exact ⟨_,rfl,rfl,rfl,rfl,rfl⟩

/-- The media type is that of some path, whatever the request decodes to. -/
theorem handleFile_eq (date : Bytes) (deadline : Option ℤ) (answers : ℕ → FileReadAnswers)
    (stream : FilesystemFileRead opened) (mimeTypes : MimeTypeRegistry) (requestedPath : Bytes) :
    ∃ path, handleFile date deadline answers stream mimeTypes requestedPath =
      makeFileResponse date deadline answers stream (mimeTypes.contentTypeForPath path) := by
  unfold handleFile
  cases decodePathRequest requestedPath with
  | ok decodedPath => exact ⟨decodedPath,rfl⟩
  | error e => exact ⟨[],rfl⟩

/-- A file is opened at its beginning, with a size that the system reports. -/
theorem read_file_size {service : FilesystemService} {request : Bytes} {deadline : Option ℤ}
    {acquisition : AcquisitionAnswers} {host : DirectoryHost fs} {openAnswers : OpenAnswers}
    {file : FilesystemFileRead opened}
    (h : (service.read fs opened request deadline acquisition host openAnswers).result = .ok (.file file))
    (hsize : ∀ names, (openAnswers.attributes names).size < 2 ^ 63) : file.stream.offset = 0 ∧ file.size < 2 ^ 63 := by
  obtain ⟨-,-,hopen,-⟩ := FilesystemService.read_file h
  obtain ⟨-,-,-,-,-,-,hoffset,hcaptured⟩ := FileReadStream.openStream_spec hopen
  have hnames := hsize file.stream.names
  rw [hcaptured] at hnames
  exact ⟨hoffset,by exact_mod_cast hnames⟩

section Body
variable {deadline : Option ℤ} {answers : ℕ → FileReadAnswers}

/-- The bytes of each report are what the file held at their position when the call behind the report read there. -/
def FromFile (answers : ℕ → FileReadAnswers) : (call offset : ℕ) → List (ℕ × BodyRead) → Prop
  | _,_,[] => True
  | call,offset,report :: more =>
    reportedBytes report <+: (answers call).native.contents.drop offset ∧
      FromFile answers (call + 1) (offset + (reportedBytes report).length) more

variable (deadline answers) in
/-- One call: bytes at the position of the stream, or none. -/
theorem fileSource_cases (file : FilesystemFileRead opened) (call requested : ℕ) :
    (∃ bytes file', fileSource deadline answers call file requested = (.produced bytes,file') ∧
      FileReadStream.Reads file.stream requested (answers call).native bytes file'.stream ∧
      file'.stream.offset = file.stream.offset + bytes.length ∧ file'.deadline = file.deadline) ∨
    (∃ error, fileSource deadline answers call file requested = (.failed error,file)) := by
  unfold fileSource
  cases hread : file.read requested deadline (answers call) with
  | mk result file' =>
    rcases FilesystemFileRead.read_cases hread with ⟨bytes,rfl,hreads,hfile⟩ | ⟨error,rfl,rfl⟩
    · exact Or.inl ⟨bytes,file',rfl,hreads,by rw [hreads.position],by rw [hfile]⟩
    · exact Or.inr ⟨_,rfl⟩

/-- Whatever reads are made, their bytes stand in the file one behind the other. -/
theorem served_fromFile {file : FilesystemFileRead opened} {call : ℕ} {reports : List (ℕ × BodyRead)}
    (h : Served (fileSource deadline answers) call file reports) :
    FromFile answers call file.stream.offset reports := by
  induction reports generalizing call file with
  | nil => trivial
  | cons report more ih =>
    obtain ⟨requested,read⟩ := report
    obtain ⟨rfl,hmore⟩ := h
    have hrest := ih hmore
    rcases fileSource_cases deadline answers file call requested with
      ⟨bytes,file',hanswer,hreads,hoffset,-⟩ | ⟨error,hanswer⟩
    · rw [hanswer] at hrest ⊢
      have hbytes : reportedBytes (requested,.produced bytes) = bytes := if_pos hreads.room
      rw [hoffset] at hrest
      rw [FromFile,hbytes]
      exact ⟨hreads.part,hrest⟩
    · rw [hanswer] at hrest ⊢
      exact ⟨List.nil_prefix,hrest⟩

/-- The position of the stream and what is left of the body add up to the size. -/
theorem stateBefore_file {file state : FilesystemFileRead opened} {length call remaining : ℕ}
    (h : stateBefore (fileSource deadline answers) file length call = (state,remaining)) :
    state.stream.offset + remaining = file.stream.offset + length ∧ state.deadline = file.deadline := by
  induction call generalizing state remaining with
  | zero =>
    obtain ⟨rfl,rfl⟩ := Prod.mk.inj h
    exact ⟨rfl,rfl⟩
  | succ call ih =>
    cases hbefore : stateBefore (fileSource deadline answers) file length call with
    | mk earlier left =>
      obtain ⟨hposition,hdeadline⟩ := ih hbefore
      rcases fileSource_cases deadline answers earlier call (min left streamBufferSize) with
        ⟨bytes,file',hanswer,hreads,hoffset,hkept⟩ | ⟨error,hanswer⟩
      · rw [stateBefore_succ hbefore hanswer] at h
        obtain ⟨rfl,rfl⟩ := Prod.mk.inj h
        have hroom : bytes.length ≤ left := hreads.room.trans (Nat.min_le_left _ _)
        refine ⟨?_,hkept.trans hdeadline⟩
        rw [hoffset,producedBytes]
        omega
      · rw [stateBefore_succ hbefore hanswer] at h
        obtain ⟨rfl,rfl⟩ := Prod.mk.inj h
        exact ⟨hposition,hdeadline⟩

/-- Reads of a file with fixed contents that nothing interrupts and that find something. -/
structure Steady (answers : ℕ → FileReadAnswers) (deadline retained : Option ℤ) (contents : Bytes) : Prop where
  current : ∀ call, interruptionStatus (answers call).current deadline = .none
  retained : ∀ call, interruptionStatus (answers call).retained retained = .none
  running : ∀ call, (answers call).stopRequested = false
  continued : ∀ call, ∀ stopRequested ∈ (answers call).native.interruptions, stopRequested = false
  counted : ∀ call, ∃ count, (answers call).native.outcome = .ok count ∧ 0 < count
  contents : ∀ call, (answers call).native.contents = contents

theorem readLoop_continued (stream : FileReadStream opened) (requested : ℕ) {count : ℕ} {native : NativeRead}
    {interruptions : List Bool} (h : ∀ stopRequested ∈ interruptions, stopRequested = false)
    (hcount : native.outcome = .ok count) :
    (stream.readLoop requested native interruptions).1 =
      .ok ((native.contents.drop stream.offset).take (min count requested)) := by
  induction interruptions with
  | nil =>
    rw [FileReadStream.readLoop]
    simp only [hcount]
  | cons stopRequested rest ih =>
    rw [List.forall_mem_cons] at h
    rw [FileReadStream.readLoop,if_neg (by rw [h.1]; decide)]
    exact ih h.2

theorem fileSource_steady {file : FilesystemFileRead opened} {contents : Bytes}
    (h : Steady answers deadline file.deadline contents) (call : ℕ) {requested : ℕ} (hrequested : requested ≠ 0) : ∃ count, 0 < count ∧
      (fileSource deadline answers call file requested).1 =
        .produced ((contents.drop file.stream.offset).take (min count requested)) := by
  obtain ⟨count,hcount,hpositive⟩ := h.counted call
  have hloop := readLoop_continued file.stream requested (h.continued call) hcount
  refine ⟨count,hpositive,?_⟩
  rw [h.contents] at hloop
  have hread : (file.read requested deadline (answers call)).1 =
      .ok ((contents.drop file.stream.offset).take (min count requested)) := by
    rw [FilesystemFileRead.read,if_neg (by simp [h.current call,h.retained call]),FileReadStream.read,
      if_neg (by simp [h.running call]),if_neg hrequested]
    exact hloop
  unfold fileSource
  split
  · rename_i bytes file' hanswer
    rw [hanswer] at hread
    exact congrArg BodyRead.produced (Except.ok.inj hread)
  · rename_i error file' hanswer
    rw [hanswer] at hread
    cases hread

theorem fileSource_supplying {file : FilesystemFileRead opened} {length : ℕ} {contents : Bytes}
    (h : Steady answers deadline file.deadline contents) (hlength : file.stream.offset + length ≤ contents.length) :
    Supplying (fileSource deadline answers) file length := by
  intro call state remaining hstate hremaining
  obtain ⟨hposition,hdeadline⟩ := stateBefore_file hstate
  have hrequested : 0 < min remaining streamBufferSize := Nat.lt_min.mpr ⟨Nat.pos_of_ne_zero hremaining,by decide⟩
  rw [← hdeadline] at h
  obtain ⟨count,hpositive,hanswer⟩ := fileSource_steady h call (Nat.ne_of_gt hrequested)
  have hcut : 0 < min count (min remaining streamBufferSize) := Nat.lt_min.mpr ⟨hpositive,hrequested⟩
  refine ⟨_,hanswer,?_,?_⟩
  · apply List.ne_nil_of_length_pos
    rw [List.length_take,List.length_drop]
    omega
  · exact (List.length_take_le _ _).trans (Nat.min_le_right _ _)

/-- What is read of a file with fixed contents is a part of them. -/
theorem fromFile_steady {contents : Bytes} {reports : List (ℕ × BodyRead)} {call offset : ℕ}
    (h : FromFile answers call offset reports) (hcontents : ∀ call, (answers call).native.contents = contents) :
    reported reports = (contents.drop offset).take (reported reports).length := by
  induction reports generalizing call offset with
  | nil => rfl
  | cons report more ih =>
    obtain ⟨hpart,hmore⟩ := h
    rw [hcontents] at hpart
    rw [reported_cons,List.length_append,List.take_add,← List.prefix_iff_eq_take.mp hpart,List.drop_drop,← ih hmore]

end Body

section Wire
variable {deadline : Option ℤ} {answers : ℕ → FileReadAnswers} {file : FilesystemFileRead opened}
variable {response : HttpResponse} {connection : Connection} {requestMethod : HttpMethod} {final : Final}

/-- What has been sent by the end of a transmission: a beginning of the head and of what was read of the file, and
all of both on success. -/
structure Sent (answers : ℕ → FileReadAnswers) (response : HttpResponse) (requestMethod : HttpMethod)
    (final : Final) : Prop where
  fromFile : FromFile answers 0 0 final.progress.reports
  head : requestMethod = .head → final.progress.reports = []
  beginning : final.progress.sent <+: serializeHttpResponseHead response ++ reported final.progress.reports
  complete : final.outcome = .finished (.ok ()) →
    final.progress.sent = serializeHttpResponseHead response ++ reported final.progress.reports ∧
      (requestMethod ≠ .head → (reported final.progress.reports).length = response.contentLength)

theorem sent_of_transmission {headFits : Bool} {rounds : ℕ} (hoffset : file.stream.offset = 0)
    (hreader : response.bodyReader =
      some (sourceReader (fileSource deadline answers) file response.contentLength))
    (h : Transmission.writeHttpResponse connection headFits rounds response requestMethod = some final) :
    Sent answers response requestMethod final := by
  have hserved := served_fromFile (writeHttpResponse_served hreader h)
  rw [hoffset] at hserved
  obtain ⟨⟨after,outcome⟩,htransmit,rfl⟩ := Option.map_eq_some_iff.mp h
  have hattempt := transmit_attempt (fun hnone => by rw [hreader] at hnone; cases hnone) htransmit
  have hbody : bodyBytes response requestMethod after.reports = reported after.reports := by
    rw [bodyBytes]
    split
    · rename_i hmethod
      rw [hattempt.head hmethod]
      rfl
    · rw [hreader]
  have hbeginning := hattempt.beginning
  have hcomplete := hattempt.complete
  rw [hbody] at hbeginning hcomplete
  refine ⟨hserved,hattempt.head,hbeginning,fun hok => hcomplete ?_⟩
  cases outcome with
  | finished result => exact hok
  | threw => cases hok
  | fault => cases hok

/-- A complete body of a file with fixed contents is the beginning of them. -/
theorem Sent.whole {contents : Bytes} (h : Sent answers response requestMethod final)
    (hcontents : ∀ call, (answers call).native.contents = contents) (hok : final.outcome = .finished (.ok ())) :
    final.progress.sent = serializeHttpResponseHead response ++
      (if requestMethod = .head then [] else contents.take response.contentLength) := by
  obtain ⟨hsent,hlength⟩ := h.complete hok
  rw [hsent]
  split
  · rename_i hmethod
    rw [h.head hmethod]
    rfl
  · rename_i hmethod
    have hread := fromFile_steady h.fromFile hcontents
    rw [List.drop_zero,hlength hmethod] at hread
    rw [hread]

end Wire

/-- A file that is opened makes a response, whose body is what the file holds at each position when it is read. The
response is complete only with as many bytes as were announced; with a file that stays as it is, nothing that fails
and a connection that takes everything, it is complete and its body is the file. -/
theorem download_exact {service : FilesystemService} {request : Bytes} {deadline : Option ℤ}
    {acquisition : AcquisitionAnswers} {host : DirectoryHost fs} {openAnswers : OpenAnswers}
    {file : FilesystemFileRead opened}
    (h : (service.read fs opened request deadline acquisition host openAnswers).result = .ok (.file file))
    (hsize : ∀ names, (openAnswers.attributes names).size < 2 ^ 63) (mimeTypes : MimeTypeRegistry) (date : Bytes)
    (readDeadline : Option ℤ) (answers : ℕ → FileReadAnswers) :
    ∃ response contentType, handleFile date readDeadline answers file mimeTypes request = .ok response ∧
      response.headers = fileHeaders contentType ∧ isActiveMediaType contentType = false ∧
      response.contentLength = file.size ∧
      (∀ connection headFits rounds requestMethod final,
        Transmission.writeHttpResponse connection headFits rounds response requestMethod = some final →
        Sent answers response requestMethod final) ∧
      (∀ contents connection requestMethod, Steady answers readDeadline deadline contents →
        file.size ≤ contents.length → Accepting connection → ∃ bound, ∀ rounds ≥ bound, ∃ final,
          Transmission.writeHttpResponse connection true rounds response requestMethod = some final ∧
            final.outcome = .finished (.ok ()) ∧ final.progress.sent = serializeHttpResponseHead response ++
              (if requestMethod = .head then [] else contents.take file.size)) := by
  obtain ⟨-,-,-,hdeadline⟩ := FilesystemService.read_file h
  obtain ⟨hoffset,hsmall⟩ := read_file_size h hsize
  obtain ⟨path,hpath⟩ := handleFile_eq date readDeadline answers file mimeTypes request
  have hclean := contentTypeForPath_clean mimeTypes path
  obtain ⟨response,hresponse,-,hheaders,hlength,hreader⟩ :=
    makeFileResponse_ok date readDeadline answers hsmall hclean.1 hclean.2
  refine ⟨response,_,hpath.trans hresponse,hheaders,contentType_inactive mimeTypes path,hlength,?_,?_⟩
  · intro connection headFits rounds requestMethod final hfinal
    exact sent_of_transmission hoffset hreader hfinal
  · intro contents connection requestMethod hsteady hcontents hconnection
    rw [← hdeadline] at hsteady
    have hsupplying : Supplying (fileSource readDeadline answers) file response.contentLength := by
      apply fileSource_supplying hsteady
      rw [hoffset,Nat.zero_add,hlength]
      exact hcontents
    obtain ⟨bound,hbound⟩ := writeHttpResponse_supplied hreader hconnection hsupplying requestMethod
    refine ⟨bound,fun rounds hrounds => ?_⟩
    obtain ⟨final,hfinal,hok⟩ := hbound rounds hrounds
    have hsent := (sent_of_transmission hoffset hreader hfinal).whole hsteady.contents hok
    rw [hlength] at hsent
    exact ⟨final,hfinal,hok,hsent⟩

/-- Reads of three bytes at most, each after an interruption. -/
def helloReads : ℕ → FileReadAnswers := fun _ => ⟨⟨false,0⟩,⟨false,0⟩,false,⟨[false],.ok 3,ascii "hello"⟩⟩

/-- Five bytes that are read by three go out on a connection that takes everything at once. -/
theorem download_exact_hello : ∃ file response,
    (linkedService.read helloTree helloTree (ascii "hello.txt") none granted unreadableHost openedHello).result =
      .ok (.file file) ∧
    handleFile (ascii "Thu, 01 Jan 1970 00:00:00 GMT") none helloReads file noMimeTypes (ascii "hello.txt") =
      .ok response ∧
    ∃ bound, ∀ rounds ≥ bound, ∃ final,
      Transmission.writeHttpResponse (fun _ bytes => .sent bytes.length) true rounds response .get = some final ∧
        final.progress.sent = serializeHttpResponseHead response ++ ascii "hello" := by
  obtain ⟨stream,-,hread⟩ := hello_read
  have hfile : (linkedService.read helloTree helloTree (ascii "hello.txt") none granted unreadableHost
      openedHello).result = .ok (.file ⟨stream,1,none⟩) := by rw [hread]
  obtain ⟨-,-,hopen,-⟩ := FilesystemService.read_file hfile
  obtain ⟨-,-,-,-,-,-,-,hcaptured⟩ := FileReadStream.openStream_spec hopen
  have hfive : stream.size = 5 := Int.ofNat.inj hcaptured.symm
  obtain ⟨response,-,hresponse,-,-,-,-,hcomplete⟩ := download_exact hfile
    (fun _ => (by decide : (5 : ℤ) < 2 ^ 63)) noMimeTypes
    (ascii "Thu, 01 Jan 1970 00:00:00 GMT") none helloReads
  have hsteady : Steady helloReads none none (ascii "hello") :=
    ⟨fun _ => rfl,fun _ => rfl,fun _ => rfl,fun _ => by simp [helloReads],fun _ => ⟨3,rfl,by decide⟩,fun _ => rfl⟩
  obtain ⟨bound,hbound⟩ := hcomplete (ascii "hello") (fun _ bytes => .sent bytes.length) .get hsteady
    (by rw [FilesystemFileRead.size,hfive]; decide)
    (fun _ bytes hne => ⟨bytes.length,rfl,List.length_pos_iff.mpr hne,Nat.le_refl _⟩)
  refine ⟨⟨stream,1,none⟩,response,hfile,hresponse,bound,fun rounds hrounds => ?_⟩
  obtain ⟨final,hfinal,-,hsent⟩ := hbound rounds hrounds
  rw [FilesystemFileRead.size,hfive] at hsent
  exact ⟨final,hfinal,hsent⟩

end SpareNode.Http.Api
