import SpareNode.Http.Request.HeadAcceptance
import SpareNode.Http.Request.AuthorityText

/-! # Two heads with one line changed

The loop over the lines of a section reads nothing of the input but the line at hand, and an
offset shows in diagnostics only. Two sections with the same lines at other places therefore go
through states that agree, and so do two sections that differ in the value of their Host line.
-/
namespace SpareNode.Http

/-- Two results that agree, or two errors of one kind. -/
inductive SameOutcome {α β : Type} (R : α → β → Prop) :
    Except HttpRequestParseError α → Except HttpRequestParseError β → Prop
  | ok {a : α} {b : β} (h : R a b) : SameOutcome R (.ok a) (.ok b)
  | error {e e' : HttpRequestParseError} (h : e.code = e'.code) : SameOutcome R (.error e) (.error e')

theorem SameOutcome.strengthen {α β : Type} {R S : α → β → Prop} {x : Except HttpRequestParseError α}
    {y : Except HttpRequestParseError β} (h : SameOutcome R x y) (hs : ∀ a b, x = .ok a → R a b → S a b) :
    SameOutcome S x y := by
  cases h with
  | ok hab => exact .ok (hs _ _ rfl hab)
  | error hcode => exact .error hcode

theorem SameOutcome.bind {α β γ δ : Type} {R : α → β → Prop} {S : γ → δ → Prop}
    {x : Except HttpRequestParseError α} {y : Except HttpRequestParseError β}
    {f : α → Except HttpRequestParseError γ} {g : β → Except HttpRequestParseError δ}
    (h : SameOutcome R x y) (hf : ∀ a b, R a b → SameOutcome S (f a) (g b)) :
    SameOutcome S (x >>= f) (y >>= g) := by
  cases h with
  | ok hab => exact hf _ _ hab
  | error hcode => exact .error hcode

def sectionText (lines : List Bytes) : Bytes := (lines.map (fun line => line ++ crlf)).flatten

def IsLine (line : Bytes) : Prop := line ≠ [] ∧ cr ∉ line ∧ lf ∉ line

/-- The loop of `parse_header_section` over lines that are already cut. -/
def parseLines (limits : HttpRequestParserLimits) : List Bytes → ℕ → HeaderParseState →
    Except HttpRequestParseError HeaderParseState
  | [],_,state => .ok state
  | line :: lines,lineStart,state => do
    let state ← parseHeaderLine line lineStart limits state
    parseLines limits lines (lineStart + line.length + 2) state

theorem sectionText_cons (line : Bytes) (lines : List Bytes) :
    sectionText (line :: lines) = line ++ crlf ++ sectionText lines := by
  simp [sectionText]

theorem parseHeaderLines_eq {input tail : Bytes} {headerStart lineStart : ℕ}
    {limits : HttpRequestParserLimits} {state : HeaderParseState} {lines : List Bytes}
    (hs : headerStart ≤ lineStart) (hi : input.drop lineStart = sectionText lines ++ crlf ++ tail)
    (hlines : ∀ line ∈ lines, IsLine line)
    (hm : lineStart + (sectionText lines).length + 2 ≤ headerStart + limits.maxHeaderBytes) :
    parseHeaderLines input headerStart limits lineStart state = do
      let final ← parseLines limits lines lineStart state
      let section_ ← finishHeaderSection headerStart (lineStart + (sectionText lines).length) final
      return some section_ := by
  induction lines generalizing lineStart state with
  | nil =>
    have hi : input.drop lineStart = [] ++ crlf ++ tail := hi
    have he := findHeaderLineEnd_line limits.maxHeaderBytes hs hi (by simp) (by simp) hm
    rw [parseHeaderLines.eq_def,he]
    simp only [List.length_nil,Nat.add_zero,if_true,parseLines,sectionText,List.map_nil,List.flatten_nil,
      bind,Except.bind]
    cases finishHeaderSection headerStart lineStart state <;> rfl
  | cons line lines ih =>
    obtain ⟨⟨hne,hc,hl⟩,hlines⟩ := List.forall_mem_cons.mp hlines
    rw [sectionText_cons] at hi hm ⊢
    simp only [List.length_append,crlf,List.length_cons,List.length_nil] at hm
    have hi : input.drop lineStart = line ++ crlf ++ (sectionText lines ++ crlf ++ tail) := by
      rw [hi]
      simp only [List.append_assoc]
    have he := findHeaderLineEnd_line limits.maxHeaderBytes hs hi hc hl (by omega)
    obtain ⟨hsub,hdrop⟩ := drop_line hi
    have hlength : line.length ≠ 0 := fun hzero => hne (List.length_eq_zero_iff.mp hzero)
    rw [parseHeaderLines.eq_def,he]
    simp only [hsub]
    rw [if_neg (by omega),parseLines]
    cases hline : parseHeaderLine line lineStart limits state with
    | error e => rfl
    | ok next =>
      dsimp only
      rw [ih (by omega) hdrop hlines (by omega)]
      simp only [List.length_append,crlf,List.length_cons,List.length_nil,bind,Except.bind]
      rw [show lineStart + line.length + 2 + (sectionText lines).length =
        lineStart + (line.length + (0 + 1 + 1) + (sectionText lines).length) by omega]

theorem parseLines_append (limits : HttpRequestParserLimits) (lines rest : List Bytes) (lineStart : ℕ)
    (state : HeaderParseState) :
    parseLines limits (lines ++ rest) lineStart state = parseLines limits lines lineStart state >>=
      parseLines limits rest (lineStart + (sectionText lines).length) := by
  induction lines generalizing lineStart state with
  | nil => simp [parseLines,sectionText,bind,Except.bind]
  | cons line lines ih =>
    rw [List.cons_append,parseLines,parseLines,sectionText_cons]
    cases parseHeaderLine line lineStart limits state with
    | error e => rfl
    | ok next =>
      simp only [bind,Except.bind] at ih ⊢
      rw [ih]
      simp only [List.length_append,crlf,List.length_cons,List.length_nil]
      rw [show lineStart + line.length + 2 + (sectionText lines).length =
        lineStart + (line.length + (0 + 1 + 1) + (sectionText lines).length) by omega]

/-- Two parse states with the same framing; the fields of the second are those of the first with
some change. -/
structure Alike (change : List HttpHeaderView → List HttpHeaderView) (s s' : HeaderParseState) : Prop where
  headers : s'.headers = change s.headers
  bodySize : s'.bodySize = s.bodySize
  hostSeen : s'.hostSeen = s.hostSeen
  transferEncodingSeen : s'.transferEncodingSeen = s.transferEncodingSeen
  transferEncoding : s'.transferEncoding = s.transferEncoding

/-- A change that leaves a new field behind the others as it is. -/
def Leaves (change : List HttpHeaderView → List HttpHeaderView) (fields : List HttpHeaderView)
    (field : HttpHeaderView) : Prop := change (fields ++ [field]) = change fields ++ [field]

theorem parseHeaderField_same (line : Bytes) (lineStart lineStart' : ℕ) :
    SameOutcome (fun p p' => p'.field = p.field) (parseHeaderField line lineStart)
      (parseHeaderField line lineStart') := by
  unfold parseHeaderField
  split
  · exact .error rfl
  · split
    · exact .error rfl
    · dsimp only
      repeat' split
      all_goals first
        | exact .error rfl
        | exact .ok rfl

theorem parseContentLength_same (value : Bytes) (offset offset' : ℕ) :
    SameOutcome (· = ·) (parseContentLength value offset) (parseContentLength value offset') := by
  unfold parseContentLength
  split
  · exact .error rfl
  · split
    · exact .ok rfl
    · exact .error rfl

/-- One field at two places. A second Host field is refused in both. -/
theorem applyHeaderField_alike {change : List HttpHeaderView → List HttpHeaderView}
    {s s' : HeaderParseState} {p p' : ParsedHeaderField} {limits : HttpRequestParserLimits}
    (h : Alike change s s') (hfield : p'.field = p.field)
    (hleaves : isNamed "Host" p.field = true → s.hostSeen = false → Leaves change s.headers p.field)
    (hother : isNamed "Host" p.field = false → Leaves change s.headers p.field) :
    SameOutcome (Alike change) (applyHeaderField p limits s) (applyHeaderField p' limits s') := by
  obtain ⟨hheaders,hbody,hhost,hseen,hcoding⟩ := h
  have hkept (hl : Leaves change s.headers p.field) :
      s'.headers ++ [p.field] = change (s.headers ++ [p.field]) := by rw [hheaders,hl]
  unfold applyHeaderField
  dsimp only
  rw [hfield,hhost,hbody,hseen]
  split
  · rename_i hnamed
    split
    · exact .error rfl
    · rename_i hfirst
      split
      · exact .error rfl
      · split
        · exact .error rfl
        · exact .ok ⟨hkept (hleaves hnamed (by simpa using hfirst)),rfl,rfl,rfl,hcoding⟩
  · rename_i hnamed
    have hl := hkept (hother (by simpa using hnamed))
    split
    · split
      · exact .error rfl
      · have hlength := parseContentLength_same p.field.value p.valueStart p'.valueStart
        revert hlength
        cases parseContentLength p.field.value p.valueStart <;>
          cases parseContentLength p.field.value p'.valueStart
        · rintro ⟨⟩
          exact .error (by assumption)
        · rintro ⟨⟩
        · rintro ⟨⟩
        · rintro ⟨rfl⟩
          dsimp only
          split
          · exact .error rfl
          · exact .ok ⟨hl,rfl,rfl,rfl,hcoding⟩
    · split
      · split
        · exact .error rfl
        · exact .ok ⟨hl,rfl,rfl,rfl,rfl⟩
      · exact .ok ⟨hl,rfl,rfl,rfl,hcoding⟩

theorem applyHeaderField_hostSeen {p : ParsedHeaderField} {limits : HttpRequestParserLimits}
    {s s' : HeaderParseState} (h : applyHeaderField p limits s = .ok s') (hs : s.hostSeen = true) :
    s'.hostSeen = true := by
  unfold applyHeaderField at h
  dsimp only at h
  repeat' split at h
  all_goals first
    | (simp at h; done)
    | (obtain rfl := Except.ok.inj h; first | rfl | exact hs)

/-- A change that neither adds nor drops a field and acts on Host fields alone. -/
structure HostChange (change : List HttpHeaderView → List HttpHeaderView) : Prop where
  length : ∀ fields, (change fields).length = fields.length
  other : ∀ fields field, isNamed "Host" field = false → Leaves change fields field

/-- States that agree and go on to agree: either no Host field may follow, or one that does is
kept as it is. -/
structure Along (change : List HttpHeaderView → List HttpHeaderView) (s s' : HeaderParseState) : Prop
    extends Alike change s s' where
  settled : s.hostSeen = true ∨ ∀ fields field, Leaves change fields field

section
variable {change : List HttpHeaderView → List HttpHeaderView} {limits : HttpRequestParserLimits}
  {s s' : HeaderParseState}

/-- The limit on the count lets both lines pass or neither. -/
theorem parseHeaderLine_same {line line' : Bytes} {lineStart lineStart' : ℕ}
    {R : HeaderParseState → HeaderParseState → Prop} (hcount : s'.headers.length = s.headers.length)
    (h : SameOutcome R (parseHeaderField line lineStart >>= fun p => applyHeaderField p limits s)
      (parseHeaderField line' lineStart' >>= fun p => applyHeaderField p limits s')) :
    SameOutcome R (parseHeaderLine line lineStart limits s) (parseHeaderLine line' lineStart' limits s') := by
  unfold parseHeaderLine
  rw [hcount]
  by_cases hfull : limits.maxHeaderCount ≤ s.headers.length
  · rw [if_pos hfull,if_pos hfull]
    exact .error rfl
  · rw [if_neg hfull,if_neg hfull]
    exact h

theorem parseHeaderLine_along (hchange : HostChange change) (h : Along change s s') (line : Bytes)
    (lineStart lineStart' : ℕ) :
    SameOutcome (Along change) (parseHeaderLine line lineStart limits s)
      (parseHeaderLine line lineStart' limits s') := by
  refine parseHeaderLine_same (by rw [h.headers,hchange.length])
    ((parseHeaderField_same line lineStart lineStart').bind ?_)
  intro p p' hfield
  have hsame := @applyHeaderField_alike _ _ _ _ _ limits h.toAlike hfield (fun _ hfirst => ?_)
    (hchange.other s.headers p.field)
  · refine hsame.strengthen fun t t' ht halike => ⟨halike,h.settled.imp_left ?_⟩
    exact applyHeaderField_hostSeen ht
  · rcases h.settled with hseen | hleaves
    · rw [hfirst] at hseen
      cases hseen
    · exact hleaves s.headers p.field

theorem parseLines_along (hchange : HostChange change) (lines : List Bytes) (lineStart lineStart' : ℕ)
    (h : Along change s s') :
    SameOutcome (Along change) (parseLines limits lines lineStart s) (parseLines limits lines lineStart' s') := by
  induction lines generalizing lineStart lineStart' s s' with
  | nil => exact .ok h
  | cons line lines ih =>
    exact (parseHeaderLine_along hchange h line lineStart lineStart').bind fun t t' ht => ih _ _ ht

theorem parseLines_gathered {fields : List HttpHeaderView} (lines : List Bytes) (lineStart : ℕ)
    (hg : Gathered limits fields s) {final : HeaderParseState}
    (h : parseLines limits lines lineStart s = .ok final) : ∃ fields, Gathered limits fields final := by
  induction lines generalizing lineStart s fields with
  | nil =>
    obtain rfl := Except.ok.inj h
    exact ⟨fields,hg⟩
  | cons line lines ih =>
    rw [parseLines] at h
    cases hline : parseHeaderLine line lineStart limits s with
    | error e => simp [hline,bind,Except.bind] at h
    | ok next =>
      rw [hline] at h
      obtain ⟨-,parsed,-,happly⟩ := parseHeaderLine_eq_ok_iff.mp hline
      exact ih _ (applyHeaderField_gathered hg happly) h

/-- The empty line decides by what agreeing states have in common. -/
theorem finishHeaderSection_alike (h : Alike change s s') (headerStart headerStart' lineEnd lineEnd' : ℕ) :
    SameOutcome (fun t t' => t'.headers = change t.headers ∧ t'.bodySize = t.bodySize ∧ t'.chunked = t.chunked)
      (finishHeaderSection headerStart lineEnd s) (finishHeaderSection headerStart' lineEnd' s') := by
  obtain ⟨hheaders,hbody,hhost,hseen,hcoding⟩ := h
  have hframing : SameOutcome (fun _ _ => True) (validateFraming s) (validateFraming s') := by
    unfold validateFraming
    rw [hbody,hseen,hcoding]
    repeat' split
    all_goals first
      | exact .ok trivial
      | exact .error rfl
  unfold finishHeaderSection
  rw [hhost]
  split
  · exact .error rfl
  · refine hframing.bind fun _ _ _ => .ok ⟨hheaders,?_,hseen⟩
    rw [hbody]

end

theorem overrideHost_change {authority : Bytes} (h : authority ≠ []) :
    HostChange (overrideHost authority) := by
  refine ⟨?_,?_⟩
  · intro fields
    rw [overrideHost,if_neg h,List.length_map]
  · intro fields field hother
    simp [Leaves,overrideHost,h,hother]

theorem overrideHost_of_gathered {limits : HttpRequestParserLimits} {fields : List HttpHeaderView}
    {s : HeaderParseState} (authority : Bytes) (hg : Gathered limits fields s) (h : s.hostSeen = false) :
    overrideHost authority s.headers = s.headers := by
  rcases hg.host with ⟨-,hnone⟩ | ⟨hseen,-⟩
  · rw [valuesOf,List.map_eq_nil_iff,List.filter_eq_nil_iff] at hnone
    rw [overrideHost,hg.headers]
    split
    · rfl
    · exact (List.map_congr_left fun field hfield => if_neg (hnone field hfield)).trans (List.map_id' _)
  · rw [h] at hseen
    cases hseen

/-- A Host line: its name in some case and the whitespace around the value. -/
structure HostLine where
  name : Bytes
  lead : Bytes
  trail : Bytes
  named : asciiCaseInsensitiveEqual name (ascii "Host") = true
  leadSpace : lead.all isOptionalWhitespace = true
  trailSpace : trail.all isOptionalWhitespace = true

namespace HostLine

def line (host : HostLine) (value : Bytes) : HeaderLine := ⟨host.name,host.lead,value,host.trail⟩

theorem letter_token : ∀ b, isAsciiLetter (asciiLower b) = true → isHttpTokenCharacter b = true :=
  forall_byte (by decide +kernel)

theorem name_token (host : HostLine) : IsToken host.name := by
  have hnamed := asciiCaseInsensitiveEqual_iff.mp host.named
  refine ⟨?_,List.all_eq_true.mpr fun b hb => letter_token b ?_⟩
  · intro hempty
    rw [hempty] at hnamed
    exact absurd hnamed (by decide)
  · have hmem : asciiLower b ∈ (ascii "Host").map asciiLower := hnamed ▸ List.mem_map_of_mem hb
    have hall : ((ascii "Host").map asciiLower).all isAsciiLetter = true := by decide
    exact List.all_eq_true.mp hall _ hmem

theorem line_valid (host : HostLine) {value : Bytes} (h : isValidHostAuthority value = true) :
    (host.line value).Valid := by
  have htext := isValidHostAuthority_text h
  exact ⟨host.name_token,host.leadSpace,host.trailSpace,htext.trimmed,htext.value⟩

/-- No part of a Host line with a valid value breaks the line. -/
theorem line_unbroken (host : HostLine) {value : Bytes} (h : isValidHostAuthority value = true) :
    IsLine (host.line value).text := by
  have htext := isValidHostAuthority_text h
  have hname := host.name_token.2
  have hpart (c : Byte) (htoken : isHttpTokenCharacter c = false) (hspace : isOptionalWhitespace c = false)
      (hcolon : c ≠ colon) (hvalue : c ∉ value) : c ∉ (host.line value).text := by
    simp only [HeaderLine.text,line,List.mem_append,List.mem_cons,not_or]
    exact ⟨not_mem_of_all hname htoken,hcolon,⟨not_mem_of_all host.leadSpace hspace,hvalue⟩,
      not_mem_of_all host.trailSpace hspace⟩
  exact ⟨by simp [HeaderLine.text],hpart cr (by decide) (by decide) (by decide) htext.unbroken.1,
    hpart lf (by decide) (by decide) (by decide) htext.unbroken.2.1⟩

variable {limits : HttpRequestParserLimits} {s s' : HeaderParseState}

/-- Two values of one Host line: from here on the second state carries the second value. -/
theorem parse_along (host : HostLine) {value value' : Bytes} (h : isValidHostAuthority value = true)
    (h' : isValidHostAuthority value' = true) (halike : Along id s s') {fields : List HttpHeaderView}
    (hg : Gathered limits fields s) (lineStart lineStart' : ℕ) :
    SameOutcome (Along (overrideHost value')) (parseHeaderLine (host.line value).text lineStart limits s)
      (parseHeaderLine (host.line value').text lineStart' limits s') := by
  obtain ⟨start,hfield⟩ := (parseHeaderField_eq_ok_iff (host.line value).text lineStart _).mpr
    ⟨host.line value,rfl,rfl,host.line_valid h⟩
  obtain ⟨start',hfield'⟩ := (parseHeaderField_eq_ok_iff (host.line value').text lineStart' _).mpr
    ⟨host.line value',rfl,rfl,host.line_valid h'⟩
  obtain ⟨⟨hheaders,hbody,hhost,hseen,hcoding⟩,-⟩ := halike
  have hne := (isValidHostAuthority_text h).nonempty
  have hne' := (isValidHostAuthority_text h').nonempty
  have hnamed (v : Bytes) : isNamed "Host" (host.line v).field = true := host.named
  apply parseHeaderLine_same (by rw [hheaders]; rfl)
  rw [hfield,hfield']
  simp only [bind,Except.bind,applyHeaderField,hnamed,if_true,hhost]
  split
  · exact .error rfl
  · rename_i hfirst
    rw [Bool.not_eq_true] at hfirst
    have hvalue (v : Bytes) : (host.line v).field.value = v := rfl
    simp only [hvalue,if_neg hne,if_neg hne',h,h',Bool.true_eq_false,if_false]
    refine .ok ⟨⟨?_,hbody,rfl,hseen,hcoding⟩,Or.inl rfl⟩
    have hkept := overrideHost_of_gathered value' hg hfirst
    dsimp only
    rw [hheaders,id]
    simp only [overrideHost,if_neg hne',List.map_append,List.map_cons,List.map_nil,hnamed,if_true] at hkept ⊢
    rw [hkept]
    rfl

/-- Two sections that differ in the value of their Host line. -/
theorem parseLines_along (host : HostLine) {value value' : Bytes} (h : isValidHostAuthority value = true)
    (h' : isValidHostAuthority value' = true) (before after : List Bytes) (lineStart lineStart' : ℕ) :
    SameOutcome (Along (overrideHost value'))
      (parseLines limits (before ++ (host.line value).text :: after) lineStart {})
      (parseLines limits (before ++ (host.line value').text :: after) lineStart' {}) := by
  have hid : HostChange id := ⟨fun _ => rfl,fun _ _ _ => rfl⟩
  have hstart : Along id ({} : HeaderParseState) {} := ⟨⟨rfl,rfl,rfl,rfl,rfl⟩,Or.inr fun _ _ => rfl⟩
  rw [parseLines_append,parseLines_append]
  have hbefore := (@Http.parseLines_along _ limits _ _ hid before lineStart lineStart' hstart).strengthen
    (S := fun t t' => Along id t t' ∧ ∃ fields, Gathered limits fields t)
    (fun t t' ht halong => ⟨halong,parseLines_gathered before lineStart (Gathered.start limits) ht⟩)
  apply hbefore.bind
  rintro t t' ⟨halong,fields,hg⟩
  exact (parse_along host h h' halong hg _ _).bind fun u u' hu =>
    Http.parseLines_along (overrideHost_change (isValidHostAuthority_text h').nonempty) after _ _ hu

end HostLine
end SpareNode.Http
