import SpareNode.Http.Request.HeadAcceptance
import SpareNode.Http.Request.Stability

/-! # The byte bound of a request head

`maximum_http_request_head_bytes` is computed from the limits alone, in another component than
the parser. A head that the parser accepts ends within the bound, at the first empty line; an
input that asks for more has no empty line yet and still fits; one that fills the bound can
only fail.
-/
namespace SpareNode.Http
open Incremental

/-- `maximum_http_request_head_bytes`: zero when the sum leaves `std::size_t`. -/
def maximumHttpRequestHeadBytes (limits : HttpRequestParserLimits) : ℕ :=
  if sizeMax - 2 < limits.maxRequestLineBytes then 0
  else if sizeMax - (limits.maxRequestLineBytes + 2) < limits.maxHeaderBytes then 0
  else limits.maxRequestLineBytes + 2 + limits.maxHeaderBytes

theorem maximumHttpRequestHeadBytes_eq {limits : HttpRequestParserLimits}
    (h : maximumHttpRequestHeadBytes limits ≠ 0) :
    maximumHttpRequestHeadBytes limits = limits.maxRequestLineBytes + 2 + limits.maxHeaderBytes := by
  unfold maximumHttpRequestHeadBytes at h ⊢
  split
  · rename_i hline
    rw [if_pos hline] at h
    exact absurd rfl h
  · rename_i hline
    split
    · rename_i hheader
      rw [if_neg hline,if_pos hheader] at h
      exact absurd rfl h
    · rfl

def headMarker : Bytes := crlf ++ crlf

def FirstMarkerEnds (input : Bytes) (n : ℕ) : Prop :=
  headMarker <:+ input.take n ∧ ∀ m < n, ¬headMarker <:+ input.take m

variable {limits : HttpRequestParserLimits} {input rest line tail : Bytes}
  {index maximum headerStart lineStart : ℕ} {state : HeaderParseState} {head : HttpRequestHead}

/-- Behind a line that has no CR of its own, a marker starts at the end of the line or later. -/
theorem marker_of_line (hc : cr ∉ line) (h : headMarker <:+: line ++ crlf ++ tail) :
    crlf <+: tail ∨ headMarker <:+: tail := by
  induction line with
  | nil =>
    rw [List.nil_append] at h
    rcases List.infix_cons_iff.mp h with h | h
    · left
      simpa [headMarker,crlf] using h
    · rcases List.infix_cons_iff.mp h with h | h
      · simp [headMarker,crlf,cr,lf] at h
      · exact Or.inr h
  | cons b line ih =>
    have hb : cr ≠ b := fun hb => hc (hb ▸ List.mem_cons_self)
    rcases List.infix_cons_iff.mp h with h | h
    · simp [headMarker,crlf,hb] at h
    · exact ih (fun hmem => hc (List.mem_cons_of_mem b hmem)) h

theorem no_marker_of_open (hc : cr ∉ input.dropLast) : ¬headMarker <:+: input := by
  rintro ⟨a,b,rfl⟩
  have hcut : (a ++ headMarker ++ b).dropLast = a ++ ([cr,lf,cr] ++ (lf :: b).dropLast) := by
    simp [headMarker,crlf,List.dropLast_append_of_ne_nil]
  rw [hcut] at hc
  simp at hc

theorem no_crlf_of_open (hc : cr ∉ input.dropLast) : ¬crlf <+: input := by
  rintro ⟨b,rfl⟩
  have hcut : (crlf ++ b).dropLast = cr :: (lf :: b).dropLast := by
    simp [crlf]
  rw [hcut] at hc
  simp at hc

theorem findRequestLineEndFrom_none (hi : index ≤ maximum)
    (h : findRequestLineEndFrom maximum index rest = .ok none) :
    cr ∉ rest.dropLast ∧ index + rest.length ≤ maximum + 1 := by
  fun_induction findRequestLineEndFrom maximum index rest with
  | case1 index => simp; omega
  | case3 index => simp; omega
  | case8 index b rest hl hc hm ih =>
    obtain ⟨hopen,hlength⟩ := ih (by omega) h
    cases rest with
    | nil => simp at hlength ⊢; omega
    | cons x rest =>
      simp only [List.dropLast_cons_cons,List.mem_cons,not_or,List.length_cons] at hopen hlength ⊢
      exact ⟨⟨Ne.symm hc,hopen⟩,by omega⟩
  | _ => simp at h

theorem findHeaderLineEndFrom_none (hs : headerStart ≤ index) (hi : index ≤ headerStart + maximum)
    (h : findHeaderLineEndFrom headerStart maximum index rest = .ok none) :
    cr ∉ rest.dropLast ∧ index + rest.length ≤ headerStart + maximum := by
  fun_induction findHeaderLineEndFrom headerStart maximum index rest with
  | case1 index => simpa using hi
  | case4 index b rest hroom hl hc ih =>
    obtain ⟨hopen,hlength⟩ := ih (by omega) (by omega) h
    cases rest with
    | nil => simp at hlength ⊢; omega
    | cons x rest =>
      simp only [List.dropLast_cons_cons,List.mem_cons,not_or,List.length_cons] at hopen hlength ⊢
      exact ⟨⟨Ne.symm hc,hopen⟩,by omega⟩
  | case5 index => simp; omega
  | _ => simp at h

/-- The lines of an unfinished header section hold no empty line and fit its limit. -/
theorem parseHeaderLines_none (hs : headerStart ≤ lineStart)
    (hi : lineStart ≤ headerStart + limits.maxHeaderBytes) (hin : lineStart ≤ input.length)
    (h : parseHeaderLines input headerStart limits lineStart state = .ok none) :
    ¬crlf <+: input.drop lineStart ∧ ¬headMarker <:+: input.drop lineStart ∧
      input.length ≤ headerStart + limits.maxHeaderBytes := by
  fun_induction parseHeaderLines input headerStart limits lineStart state with
  | case1 => simp at h
  | case2 lineStart state hend =>
    obtain ⟨hopen,hlength⟩ := findHeaderLineEndFrom_none hs hi hend
    rw [List.length_drop] at hlength
    exact ⟨no_crlf_of_open hopen,no_marker_of_open hopen,by omega⟩
  | case3 state lineEnd he =>
    cases hfinish : finishHeaderSection headerStart lineEnd state <;> simp [hfinish,Except.map] at h
  | case4 => simp at h
  | case5 lineStart state lineEnd he hne state' hp ih =>
    obtain ⟨line,tail,hsplit,hc,-,rfl,hm⟩ := (findHeaderLineEndFrom_eq_some_iff hs).mp he
    obtain ⟨-,hdrop⟩ := drop_line hsplit
    have hin' := (findHeaderLineEnd_bounds he).2
    obtain ⟨hstart,hmarker,hlength⟩ := ih (by omega) (by omega) hin' h
    rw [hdrop] at hstart hmarker
    rw [hsplit]
    refine ⟨?_,?_,hlength⟩
    · -- a line that is not empty does not start with its own end
      cases line with
      | nil => simp at hne
      | cons b line =>
        have hb : cr ≠ b := fun hb => hc (hb ▸ List.mem_cons_self)
        simp [crlf,hb]
    · intro hinfix
      rcases marker_of_line hc hinfix with hprefixed | hlater
      · exact hstart hprefixed
      · exact hmarker hlater

/-- An input that asks for more has no empty line and fits the bound. -/
theorem parseHttpRequestHead_none (h : parseHttpRequestHead input limits = .ok none) :
    ¬headMarker <:+: input ∧
      input.length ≤ limits.maxRequestLineBytes + 2 + limits.maxHeaderBytes := by
  unfold parseHttpRequestHead at h
  split at h
  · rename_i hnil
    subst hnil
    exact ⟨no_marker_of_open (by simp),by simp⟩
  · split at h
    · cases h
    · rename_i hend
      obtain ⟨hopen,hlength⟩ := findRequestLineEndFrom_none (Nat.zero_le _) hend
      exact ⟨no_marker_of_open hopen,by omega⟩
    · rename_i requestLineEnd hend
      obtain ⟨line,rest,rfl,hc,-,hstop,hm⟩ := findRequestLineEndFrom_eq_some_iff.mp hend
      obtain rfl : requestLineEnd = line.length := by omega
      split at h
      · cases h
      · split at h
        · cases h
        · rename_i hsection
          obtain ⟨hstart,hmarker,hlength⟩ := parseHeaderLines_none le_rfl (Nat.le_add_right _ _)
            (by simp [crlf]) hsection
          rw [drop_requestLine] at hstart hmarker
          refine ⟨?_,by omega⟩
          intro hinfix
          rcases marker_of_line hc hinfix with hprefixed | hlater
          · exact hstart hprefixed
          · exact hmarker hlater
        · cases h

theorem render_ends (t : RequestHeadText) : headMarker <:+ t.render := by
  unfold RequestHeadText.render RequestHeadText.headerSection headMarker
  cases t.lines using List.reverseRecOn with
  | nil => exact ⟨t.requestLine,by simp [renderLines]⟩
  | append_singleton lines l =>
    exact ⟨t.requestLine ++ crlf ++ renderLines lines ++ l.text,by simp [renderLines]⟩

/-- An accepted head fits the bound, ends at an empty line and depends on nothing behind it. -/
theorem parseHttpRequestHead_consumed (h : parseHttpRequestHead input limits = .ok (some head)) :
    head.consumedBytes ≤ input.length ∧
      head.consumedBytes ≤ limits.maxRequestLineBytes + 2 + limits.maxHeaderBytes ∧
      headMarker <:+ input.take head.consumedBytes ∧
      ∀ more, parseHttpRequestHead (input.take head.consumedBytes ++ more) limits = .ok (some head) := by
  obtain ⟨t,ht,⟨rest,rfl⟩,rfl⟩ := parseHttpRequestHead_sound h
  have hsize : t.render.length = t.requestLine.length + 2 + t.headerSection.length := by
    simp only [RequestHeadText.render,crlf,List.length_append,List.length_cons,List.length_nil]
  have htake : (t.render ++ rest).take t.head.consumedBytes = t.render := List.take_left
  have hline := ht.requestLineSize
  have hheader := ht.headerSize
  rw [htake]
  refine ⟨by simp [RequestHeadText.head],?_,render_ends t,parseHttpRequestHead_complete ht⟩
  show t.render.length ≤ _
  omega

/-- The head ends at the first empty line: nothing shorter holds one. -/
theorem parseHttpRequestHead_first (h : parseHttpRequestHead input limits = .ok (some head)) :
    FirstMarkerEnds input head.consumedBytes := by
  obtain ⟨-,-,hends,-⟩ := parseHttpRequestHead_consumed h
  refine ⟨hends,?_⟩
  intro m hm hshort
  have hpending : parseHttpRequestHead (input.take m) limits = .ok none := by
    by_contra hdecided
    have hstable := parseHttpRequestHead_stable limits (input.take m) (input.drop m) hdecided
    dsimp only at hstable
    rw [List.take_append_drop,h] at hstable
    have hbound := (parseHttpRequestHead_consumed hstable.symm).1
    rw [List.length_take] at hbound
    omega
  exact (parseHttpRequestHead_none hpending).1 hshort.isInfix

/-- Once an unfinished head fills the bound, more input can only fail. -/
theorem parseHttpRequestHead_full (h : parseHttpRequestHead input limits = .ok none)
    (hfull : input.length = limits.maxRequestLineBytes + 2 + limits.maxHeaderBytes)
    {more : Bytes} (hmore : more ≠ []) : ∃ e, parseHttpRequestHead (input ++ more) limits = .error e := by
  cases hparse : parseHttpRequestHead (input ++ more) limits with
  | error e => exact ⟨e,rfl⟩
  | ok verdict =>
    cases verdict with
    | none =>
      have hlength := (parseHttpRequestHead_none hparse).2
      have hpos := List.length_pos_iff.mpr hmore
      rw [List.length_append] at hlength
      omega
    | some head =>
      -- the accepted head would lie inside the input that asked for more
      obtain ⟨-,hbound,-,hagain⟩ := parseHttpRequestHead_consumed hparse
      have hinside : (input ++ more).take head.consumedBytes = input.take head.consumedBytes :=
        List.take_append_of_le_length (by omega)
      have hparsed := hagain (input.drop head.consumedBytes)
      rw [hinside,List.take_append_drop,h] at hparsed
      cases hparsed

end SpareNode.Http
