import SpareNode.Http.Api.ApiRouterBuilder
import SpareNode.Http.Transport.ResponseHead

/-! # Responses that are never refused

Validation is exact: what it accepts are the checked parts of a response and nothing else. The short
JSON texts that the handlers send therefore always make a response.
-/
namespace SpareNode.Http

section
variable {status : HttpStatusCode} {reasonPhrase : Bytes} {headers : List HttpResponseHeader} {contentLength : ℕ}

theorem validateHeader_clean {header : HttpResponseHeader} (h : CleanField header) {index remaining : ℕ}
    (hroom : header.name.length + header.value.length + 4 ≤ remaining) :
    validateHeader header index remaining = .ok (header.name.length + header.value.length + 4) := by
  have hown (name : String) (hname : ascii name ∈ managedNames) :
      asciiCaseInsensitiveEqual header.name (ascii name) = false := h.own _ hname
  have htoken : (header.name.isEmpty || !header.name.all isHttpTokenCharacter) = false := by
    rw [h.name.2,Bool.not_true,Bool.or_false]
    simpa using h.name.1
  simp only [validateHeader,htoken,h.value,hown "Content-Length" (by simp [managedNames]),
    hown "Transfer-Encoding" (by simp [managedNames]),hown "Connection" (by simp [managedNames]),
    hown "Keep-Alive" (by simp [managedNames]),hown "Date" (by simp [managedNames]),Bool.not_true,Bool.or_self,
    Bool.false_eq_true,if_false]
  rw [if_neg (by omega)]

theorem validateHeaders_clean (h : ∀ header ∈ headers, CleanField header) (index : ℕ) {headSize : ℕ}
    (hfits : headSize + (headers.map (fun header => header.name.length + header.value.length + 4)).sum ≤
      maximumHeadBytes) : validateHeaders headers index headSize = .ok () := by
  induction headers generalizing index headSize with
  | nil => rfl
  | cons header rest ih =>
    rw [List.forall_mem_cons] at h
    rw [List.map_cons,List.sum_cons] at hfits
    rw [validateHeaders,validateHeader_clean h.1 (by omega)]
    exact ih h.2 (index + 1) (by omega)

/-- The checked parts of a response, of at most a hundred fields, are what validation accepts. -/
theorem validateResponse_iff : validateResponse status reasonPhrase headers contentLength = .ok () ↔
    Checked status reasonPhrase headers contentLength ∧ headers.length ≤ maximumHeaderCount := by
  constructor
  · intro h
    refine ⟨validateResponse_ok h,?_⟩
    by_contra hcount
    unfold validateResponse at h
    simp only [if_pos (Nat.not_le.mp hcount)] at h
    split_ifs at h
  · rintro ⟨h,hcount⟩
    have hrange := h.range
    have hfits := h.fits
    have hstatus : (decide (status.value < minimumResponseStatusCode) ||
        decide (maximumResponseStatusCode < status.value)) = false := by
      rw [minimumResponseStatusCode,maximumResponseStatusCode,Bool.or_eq_false_iff,decide_eq_false_iff_not,
        decide_eq_false_iff_not]
      omega
    have hbody : (statusHasNoMessageBody status && decide (contentLength ≠ 0)) = false := by
      cases hnone : statusHasNoMessageBody status with
      | false => rfl
      | true => simp [h.body hnone]
    unfold validateResponse
    rw [hstatus,h.reason,hbody,if_neg (by decide),if_neg (by decide),if_neg (by decide),if_neg (by omega),
      if_neg (by omega)]
    exact validateHeaders_clean h.fields 0 hfits

end

/-- A reason phrase is short and of the bytes of a status line. -/
theorem httpReasonPhrase_clean (status : HttpStatusCode) :
    (httpReasonPhrase status).all isHttpFieldValueByte = true ∧ (httpReasonPhrase status).length ≤ 31 := by
  have hall : ∀ entry ∈ reasonPhrases,
      (ascii entry.2).all isHttpFieldValueByte = true ∧ (ascii entry.2).length ≤ 31 := by decide +kernel
  unfold httpReasonPhrase
  cases h : reasonPhrases.lookup status.value with
  | none => decide
  | some phrase =>
    obtain ⟨before,after,hsplit,-⟩ := List.lookup_eq_some_iff.mp h
    exact hall (status.value,phrase) (by rw [hsplit]; simp)

namespace Api

def contentTypeHeader : HttpResponseHeader := ⟨ascii "Content-Type",ascii "application/json; charset=utf-8"⟩

theorem contentTypeHeader_clean : CleanField contentTypeHeader where
  name := ⟨by decide,by decide⟩
  value := by decide +kernel
  own := by decide

/-- A JSON text of the server's own with few fields is never refused. -/
theorem makeJsonResponse_ok {date : Bytes} {status : HttpStatusCode} {body : String}
    {additionalHeaders : List HttpResponseHeader} (hrange : 200 ≤ status.value ∧ status.value ≤ 599)
    (hstatus : statusHasNoMessageBody status = false) (hbody : (ascii body).length < 10 ^ 6)
    (hfields : ∀ header ∈ additionalHeaders, CleanField header ∧
      asciiCaseInsensitiveEqual header.name (ascii "Content-Type") = false)
    (hcount : additionalHeaders.length < maximumHeaderCount)
    (hfits : (additionalHeaders.map (fun header => header.name.length + header.value.length + 4)).sum ≤ 30000) :
    makeJsonResponse date status body additionalHeaders = .ok
      { statusCode := status
        reasonPhrase := httpReasonPhrase status
        headers := contentTypeHeader :: additionalHeaders
        memoryBody := ascii body
        contentLength := (ascii body).length
        dateValue := date
        bodyReader := none } := by
  have hfilter : additionalHeaders.filter
      (fun header => !asciiCaseInsensitiveEqual header.name (ascii "Content-Type")) = additionalHeaders := by
    rw [List.filter_eq_self]
    intro header hheader
    rw [(hfields header hheader).2]
    rfl
  have hdigits : decimalDigitCount (ascii body).length ≤ 6 := by
    rw [← decimalText_length]
    exact toDecimal_length_le hbody (by decide)
  have hphrase := httpReasonPhrase_clean status
  have hsize : contentTypeHeader.name.length + contentTypeHeader.value.length + 4 = 47 := by decide
  have hvalid : validateResponse status (httpReasonPhrase status) (contentTypeHeader :: additionalHeaders)
      (ascii body).length = .ok () := by
    apply validateResponse_iff.mpr
    refine ⟨⟨⟨by omega,hrange.2⟩,hphrase.1,?_,?_,?_⟩,hcount⟩
    · exact List.forall_mem_cons.mpr ⟨contentTypeHeader_clean,fun header hheader => (hfields header hheader).1⟩
    · intro hnone
      rw [hstatus] at hnone
      cases hnone
    · have homits : statusOmitsContentLength status = false := by
        rw [← Bool.not_eq_true]
        intro homits
        rw [statusHasNoMessageBody_iff.mpr (Or.inl homits)] at hstatus
        cases hstatus
      rw [fixedHeadSize_eq (by rw [hstatus]; exact fun h => absurd h (by decide)),framingSize,homits,
        if_neg (by decide),if_pos hrange.1,List.map_cons,List.sum_cons,hsize,maximumHeadBytes]
      have := hphrase.2
      omega
  have hdate : originationDate status date = date := if_pos hrange.1
  have hcreate : HttpResponse.create date status (httpReasonPhrase status) (contentTypeHeader :: additionalHeaders)
      (ascii body) = .ok
        { statusCode := status
          reasonPhrase := httpReasonPhrase status
          headers := contentTypeHeader :: additionalHeaders
          memoryBody := ascii body
          contentLength := (ascii body).length
          dateValue := date
          bodyReader := none } := by
    rw [HttpResponse.create,if_neg (by rw [maximumMemoryBodyBytes]; omega),hvalid,hdate]
  unfold makeJsonResponse
  dsimp only
  rw [hfilter]
  rw [contentTypeHeader] at hcreate
  rw [hcreate]
  rfl

end Api
end SpareNode.Http
