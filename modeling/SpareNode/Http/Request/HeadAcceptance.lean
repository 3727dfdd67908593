import SpareNode.Http.Request.HeadGrammar

/-! # The head parser accepts its grammar

The parser reads one field at a time and decides framing only at the empty line.
`Gathered` says what its state knows about the fields so far; with it, one pass over
the lines shows both directions of the equivalence with `RequestHeadText.Valid`.
-/
namespace SpareNode.Http
open Incremental

theorem valuesOf_append (name : String) (a b : List HttpHeaderView) :
    valuesOf name (a ++ b) = valuesOf name a ++ valuesOf name b := by
  simp [valuesOf]

theorem valuesOf_single (name : String) (field : HttpHeaderView) :
    valuesOf name [field] = if isNamed name field then [field.value] else [] := by
  unfold valuesOf
  split <;> simp_all

/-- No field has two of the three names that matter. -/
theorem isNamed_exclusive {a b : String} {field : HttpHeaderView}
    (hab : (ascii a).map asciiLower ≠ (ascii b).map asciiLower) (ha : isNamed a field = true) :
    isNamed b field = false := by
  by_contra hb
  rw [isNamed,asciiCaseInsensitiveEqual_iff] at ha
  rw [Bool.not_eq_false,isNamed,asciiCaseInsensitiveEqual_iff] at hb
  exact hab (ha.symm.trans hb)

theorem parseContentLength_eq_ok_iff {value : Bytes} {offset n : ℕ} :
    parseContentLength value offset = .ok n ↔
      value ≠ [] ∧ value.all (isDigit 10) = true ∧ n = numeral 10 value ∧ n ≤ sizeMax := by
  unfold parseContentLength
  split
  · next h => simp [h]
  · next hne =>
    constructor
    · intro h
      split at h
      · next length hc =>
        obtain ⟨digits,hd,-,hall,-,hn,hle⟩ := fromChars_eq_some_iff.mp hc
        rw [List.append_nil] at hd
        cases h
        subst hd
        exact ⟨hne,hall,hn,hle⟩
      · simp at h
    · rintro ⟨-,hall,rfl,hle⟩
      rw [fromChars_eq_some_iff.mpr ⟨value,(List.append_nil value).symm,hne,hall,by simp,rfl,hle⟩]

/-- What the parse state knows about the fields read so far. -/
structure Gathered (limits : HttpRequestParserLimits) (fields : List HttpHeaderView)
    (state : HeaderParseState) : Prop where
  headers : state.headers = fields
  host : (state.hostSeen = false ∧ valuesOf "Host" fields = []) ∨
    (state.hostSeen = true ∧ ∃ v, valuesOf "Host" fields = [v] ∧ isValidHostAuthority v = true)
  contentLength : (state.bodySize = none ∧ valuesOf "Content-Length" fields = []) ∨
    ∃ v, state.bodySize = some (numeral 10 v) ∧ valuesOf "Content-Length" fields = [v] ∧
      IsContentLength limits v
  transferEncoding :
    (state.transferEncodingSeen = false ∧ valuesOf "Transfer-Encoding" fields = []) ∨
    (state.transferEncodingSeen = true ∧
      valuesOf "Transfer-Encoding" fields = [state.transferEncoding])

/-- The rules that a single field can break. -/
structure Admissible (limits : HttpRequestParserLimits) (fields : List HttpHeaderView) : Prop where
  host : (valuesOf "Host" fields).length ≤ 1 ∧
    ∀ v ∈ valuesOf "Host" fields, isValidHostAuthority v = true
  contentLength : (valuesOf "Content-Length" fields).length ≤ 1 ∧
    ∀ v ∈ valuesOf "Content-Length" fields, IsContentLength limits v
  transferEncoding : (valuesOf "Transfer-Encoding" fields).length ≤ 1

theorem Admissible.left {limits : HttpRequestParserLimits} {a b : List HttpHeaderView}
    (h : Admissible limits (a ++ b)) : Admissible limits a := by
  obtain ⟨⟨h1,h2⟩,⟨h3,h4⟩,h5⟩ := h
  simp only [valuesOf_append,List.length_append,List.mem_append] at h1 h2 h3 h4 h5
  exact ⟨⟨by omega,fun v hv => h2 v (Or.inl hv)⟩,⟨by omega,fun v hv => h4 v (Or.inl hv)⟩,by omega⟩

theorem Gathered.start (limits : HttpRequestParserLimits) : Gathered limits [] {} :=
  ⟨rfl,Or.inl ⟨rfl,rfl⟩,Or.inl ⟨rfl,rfl⟩,Or.inl ⟨rfl,rfl⟩⟩

theorem applyHeaderField_gathered {parsed : ParsedHeaderField} {limits : HttpRequestParserLimits}
    {fields : List HttpHeaderView} {state state' : HeaderParseState}
    (hg : Gathered limits fields state) (h : applyHeaderField parsed limits state = .ok state') :
    Gathered limits (fields ++ [parsed.field]) state' := by
  obtain ⟨hh,h1,h2,h3⟩ := hg
  unfold applyHeaderField at h
  dsimp only at h
  split at h
  · next hn =>
    have hc := isNamed_exclusive (b := "Content-Length") (by decide) hn
    have ht := isNamed_exclusive (b := "Transfer-Encoding") (by decide) hn
    split at h
    · simp at h
    · next hseen =>
      split at h
      · simp at h
      · split at h
        · simp at h
        · next hvalid =>
          obtain rfl := Except.ok.inj h
          refine ⟨by simp [hh],Or.inr ⟨rfl,parsed.field.value,?_,by simpa using hvalid⟩,?_,?_⟩
          · rcases h1 with ⟨-,h1⟩ | ⟨h1,-⟩
            · simp [valuesOf_append,valuesOf_single,hn,h1]
            · exact absurd h1 hseen
          · simpa [valuesOf_append,valuesOf_single,hc] using h2
          · simpa [valuesOf_append,valuesOf_single,ht] using h3
  · next hn =>
    have hhost : isNamed "Host" parsed.field = false := by simpa using hn
    split at h
    · next hc =>
      have ht := isNamed_exclusive (b := "Transfer-Encoding") (by decide) hc
      split at h
      · simp at h
      · next hseen =>
        split at h
        · simp at h
        · next length hlength =>
          obtain ⟨hne,hall,hnum,hfit⟩ := parseContentLength_eq_ok_iff.mp hlength
          split at h
          · simp at h
          · next hmax =>
            obtain rfl := Except.ok.inj h
            refine ⟨by simp [hh],?_,Or.inr ⟨parsed.field.value,by rw [hnum],?_,
              ⟨hne,hall,by omega,by omega⟩⟩,?_⟩
            · simpa [valuesOf_append,valuesOf_single,hhost] using h1
            · rcases h2 with ⟨-,h2⟩ | ⟨v,h2,-⟩
              · simp [valuesOf_append,valuesOf_single,hc,h2]
              · simp [h2] at hseen
            · simpa [valuesOf_append,valuesOf_single,ht] using h3
    · next hc =>
      have hcl : isNamed "Content-Length" parsed.field = false := by simpa using hc
      split at h
      · next ht =>
        split at h
        · simp at h
        · next hseen =>
          obtain rfl := Except.ok.inj h
          refine ⟨by simp [hh],?_,?_,Or.inr ⟨rfl,?_⟩⟩
          · simpa [valuesOf_append,valuesOf_single,hhost] using h1
          · simpa [valuesOf_append,valuesOf_single,hcl] using h2
          · rcases h3 with ⟨-,h3⟩ | ⟨h3,-⟩
            · simp [valuesOf_append,valuesOf_single,ht,h3]
            · exact absurd h3 hseen
      · next ht =>
        have hte : isNamed "Transfer-Encoding" parsed.field = false := by simpa using ht
        obtain rfl := Except.ok.inj h
        refine ⟨by simp [hh],?_,?_,?_⟩
        · simpa [valuesOf_append,valuesOf_single,hhost] using h1
        · simpa [valuesOf_append,valuesOf_single,hcl] using h2
        · simpa [valuesOf_append,valuesOf_single,hte] using h3

theorem isValidHostAuthority_nil : isValidHostAuthority [] = false := by decide +kernel

theorem applyHeaderField_ok {parsed : ParsedHeaderField} {limits : HttpRequestParserLimits}
    {fields : List HttpHeaderView} {state : HeaderParseState} (hg : Gathered limits fields state)
    (ha : Admissible limits (fields ++ [parsed.field])) :
    ∃ state', applyHeaderField parsed limits state = .ok state' := by
  obtain ⟨⟨a1,a2⟩,⟨a3,a4⟩,a5⟩ := ha
  simp only [valuesOf_append,valuesOf_single,List.length_append,List.mem_append] at a1 a2 a3 a4 a5
  unfold applyHeaderField
  dsimp only
  split
  · next hn =>
    simp only [hn,↓reduceIte,List.length_singleton,List.mem_singleton] at a1 a2
    have hvalid := a2 parsed.field.value (Or.inr rfl)
    have hseen : state.hostSeen = false := by
      rcases hg.host with ⟨h,-⟩ | ⟨-,v,h,-⟩
      · exact h
      · simp [h] at a1
    have hne : parsed.field.value ≠ [] := by
      intro h
      rw [h,isValidHostAuthority_nil] at hvalid
      simp at hvalid
    simp [hseen,hne,hvalid]
  · split
    · next hc =>
      simp only [hc,↓reduceIte,List.length_singleton,List.mem_singleton] at a3 a4
      obtain ⟨hne,hall,hfit,hmax⟩ := a4 parsed.field.value (Or.inr rfl)
      have hseen : state.bodySize = none := by
        rcases hg.contentLength with ⟨h,-⟩ | ⟨v,-,h,-⟩
        · exact h
        · simp [h] at a3
      simp [hseen,parseContentLength_eq_ok_iff.mpr ⟨hne,hall,rfl,hfit⟩,Nat.not_lt.mpr hmax]
    · split
      · next ht =>
        simp only [ht,↓reduceIte,List.length_singleton] at a5
        have hseen : state.transferEncodingSeen = false := by
          rcases hg.transferEncoding with ⟨h,-⟩ | ⟨-,h⟩
          · exact h
          · simp [h] at a5
        simp [hseen]
      · exact ⟨_,rfl⟩

theorem parseHeaderLine_eq_ok_iff {line : Bytes} {lineStart : ℕ} {limits : HttpRequestParserLimits}
    {state state' : HeaderParseState} :
    parseHeaderLine line lineStart limits state = .ok state' ↔
      state.headers.length < limits.maxHeaderCount ∧
        ∃ parsed, parseHeaderField line lineStart = .ok parsed ∧
          applyHeaderField parsed limits state = .ok state' := by
  unfold parseHeaderLine
  by_cases hc : limits.maxHeaderCount ≤ state.headers.length
  · simp [hc,bind,Except.bind,throw,throwThe,MonadExceptOf.throw]
  · rcases hp : parseHeaderField line lineStart with e | parsed
    · simp [hc,bind,Except.bind]
    · simp [hc,bind,Except.bind]
      exact fun _ => by omega

theorem parseHeaderField_lineStart {line : Bytes} {lineStart : ℕ} {parsed : ParsedHeaderField}
    (h : parseHeaderField line lineStart = .ok parsed) : parsed.lineStart = lineStart := by
  unfold parseHeaderField at h
  repeat' split at h
  all_goals first
    | (simp at h; done)
    | (dsimp only at h; repeat' split at h)
  all_goals first
    | (simp at h; done)
    | (rw [← Except.ok.inj h])

theorem renderLines_cons (l : HeaderLine) (lines : List HeaderLine) :
    renderLines (l :: lines) = l.text ++ crlf ++ renderLines lines := by
  simp [renderLines]

theorem findHeaderLineEnd_line {input line tail : Bytes} {lineStart headerStart : ℕ} (maximum : ℕ)
    (hs : headerStart ≤ lineStart) (hi : input.drop lineStart = line ++ crlf ++ tail)
    (hc : cr ∉ line) (hl : lf ∉ line)
    (hm : lineStart + line.length + 2 ≤ headerStart + maximum) :
    findHeaderLineEnd input lineStart headerStart maximum = .ok (some (lineStart + line.length)) :=
  (findHeaderLineEndFrom_eq_some_iff hs).mpr ⟨line,tail,hi,hc,hl,rfl,hm⟩

theorem drop_line {input line tail : Bytes} {lineStart : ℕ}
    (hi : input.drop lineStart = line ++ crlf ++ tail) :
    substr input lineStart (lineStart + line.length - lineStart) = line ∧
      input.drop (lineStart + line.length + 2) = tail := by
  constructor
  · rw [substr,hi,Nat.add_sub_cancel_left,List.append_assoc,List.take_left]
  · rw [Nat.add_assoc,← List.drop_drop,hi,← List.drop_drop,List.append_assoc,List.drop_left]
    rfl

theorem parseHeaderLines_sound {input : Bytes} {headerStart lineStart : ℕ}
    {limits : HttpRequestParserLimits} {state : HeaderParseState} {section_ : ParsedHeaderSection}
    {fields : List HttpHeaderView} (hs : headerStart ≤ lineStart)
    (hg : Gathered limits fields state) (hcount : fields.length ≤ limits.maxHeaderCount)
    (h : parseHeaderLines input headerStart limits lineStart state = .ok (some section_)) :
    ∃ lines tail final, input.drop lineStart = renderLines lines ++ crlf ++ tail ∧
      (∀ l ∈ lines, l.Valid ∧ cr ∉ l.text ∧ lf ∉ l.text) ∧
      Gathered limits (fields ++ lines.map HeaderLine.field) final ∧
      finishHeaderSection headerStart (lineStart + (renderLines lines).length) final =
        .ok section_ ∧
      lineStart + (renderLines lines).length + 2 ≤ headerStart + limits.maxHeaderBytes ∧
      fields.length + lines.length ≤ limits.maxHeaderCount := by
  fun_induction parseHeaderLines input headerStart limits lineStart state generalizing fields with
  | case1 => simp at h
  | case2 => simp at h
  | case3 state lineEnd he =>
    obtain ⟨line,tail,hi,-,-,hstop,hm⟩ := (findHeaderLineEndFrom_eq_some_iff hs).mp he
    obtain rfl : line = [] := List.length_eq_zero_iff.mp (by omega)
    refine ⟨[],tail,state,hi,by simp,by simpa using hg,?_,by simpa [renderLines] using hm,
      by simpa using hcount⟩
    rcases hf : finishHeaderSection headerStart lineEnd state with e | s
    · simp [hf,Except.map] at h
    · simpa [hf,Except.map,renderLines] using h
  | case4 => simp at h
  | case5 lineStart state lineEnd he hne state' hp ih =>
    obtain ⟨line,tail,hi,hc,hl,rfl,hm⟩ := (findHeaderLineEndFrom_eq_some_iff hs).mp he
    obtain ⟨hsub,hdrop⟩ := drop_line hi
    rw [hsub] at hp
    obtain ⟨hroom,parsed,hfield,happly⟩ := parseHeaderLine_eq_ok_iff.mp hp
    have hstart := parseHeaderField_lineStart hfield
    obtain ⟨l,rfl,hlf,hvalid⟩ := (parseHeaderField_eq_ok_iff _ _ parsed.field).mp
      ⟨parsed.valueStart,by rw [hfield,← hstart]⟩
    have hg' := applyHeaderField_gathered hg happly
    obtain ⟨lines,tail',final,hi',hlines,hfinal,hfinish,hm',hcount'⟩ :=
      ih (by omega) hg' (by rw [List.length_append,← hg.headers]; simpa using hroom) h
    refine ⟨l :: lines,tail',final,?_,?_,?_,?_,?_,?_⟩
    · rw [hi,← hdrop,hi',renderLines_cons]
      simp only [List.append_assoc]
    · exact List.forall_mem_cons.mpr ⟨⟨hvalid,hc,hl⟩,hlines⟩
    · simpa [hlf] using hfinal
    · rw [← hfinish,renderLines_cons]
      simp only [List.length_append,crlf,List.length_cons,List.length_nil]
      congr 1
      omega
    · rw [renderLines_cons]
      simp only [List.length_append,crlf,List.length_cons,List.length_nil]
      omega
    · simp only [List.length_append,List.length_cons,List.length_nil] at hcount' ⊢
      omega

theorem parseHeaderLines_complete {input tail : Bytes} {headerStart lineStart : ℕ}
    {limits : HttpRequestParserLimits} {state : HeaderParseState} {fields : List HttpHeaderView}
    (lines : List HeaderLine) (hs : headerStart ≤ lineStart) (hg : Gathered limits fields state)
    (hi : input.drop lineStart = renderLines lines ++ crlf ++ tail)
    (hlines : ∀ l ∈ lines, l.Valid ∧ cr ∉ l.text ∧ lf ∉ l.text)
    (ha : Admissible limits (fields ++ lines.map HeaderLine.field))
    (hm : lineStart + (renderLines lines).length + 2 ≤ headerStart + limits.maxHeaderBytes)
    (hcount : fields.length + lines.length ≤ limits.maxHeaderCount) :
    ∃ final, Gathered limits (fields ++ lines.map HeaderLine.field) final ∧
      parseHeaderLines input headerStart limits lineStart state =
        (finishHeaderSection headerStart (lineStart + (renderLines lines).length) final).map some := by
  induction lines generalizing lineStart state fields with
  | nil =>
    simp only [renderLines,List.map_nil,List.flatten_nil,List.length_nil,Nat.add_zero] at hi hm ⊢
    refine ⟨state,by simpa using hg,?_⟩
    have he := findHeaderLineEnd_line limits.maxHeaderBytes hs hi
      (by simp) (by simp) hm
    rw [parseHeaderLines.eq_def,he]
    simp
  | cons l lines ih =>
    obtain ⟨⟨hvalid,hc,hl⟩,hlines⟩ := List.forall_mem_cons.mp hlines
    rw [renderLines_cons] at hi hm ⊢
    simp only [List.length_append,List.length_cons,crlf,List.length_nil] at hm hcount
    have hi : input.drop lineStart = l.text ++ crlf ++ (renderLines lines ++ crlf ++ tail) := by
      rw [hi]
      simp only [List.append_assoc]
    have he := findHeaderLineEnd_line limits.maxHeaderBytes hs hi hc hl (by omega)
    obtain ⟨hsub,hdrop⟩ := drop_line hi
    have hne : l.text.length ≠ 0 := by simp [HeaderLine.text]
    obtain ⟨valueStart,hfield⟩ := (parseHeaderField_eq_ok_iff l.text lineStart l.field).mpr
      ⟨l,rfl,rfl,hvalid⟩
    have hfirst : Admissible limits (fields ++ [l.field]) := by
      apply Admissible.left (b := lines.map HeaderLine.field)
      simpa using ha
    obtain ⟨state',happly⟩ := @applyHeaderField_ok ⟨l.field,lineStart,valueStart⟩ _ _ _ hg hfirst
    have hline := parseHeaderLine_eq_ok_iff.mpr
      ⟨by rw [hg.headers]; omega,_,hfield,happly⟩
    obtain ⟨final,hfinal,hloop⟩ := @ih (lineStart + l.text.length + 2) _ _ (by omega)
      (applyHeaderField_gathered hg happly) hdrop hlines (by simpa using ha) (by omega)
      (by simp only [List.length_append,List.length_cons,List.length_nil]; omega)
    refine ⟨final,by simpa using hfinal,?_⟩
    rw [parseHeaderLines.eq_def,he]
    simp only [hsub,hline]
    rw [if_neg (show ¬lineStart + l.text.length = lineStart by omega),hloop]
    simp only [List.length_append,crlf,List.length_cons,List.length_nil]
    congr 2
    omega

theorem finishHeaderSection_eq_ok_iff {headerStart lineEnd : ℕ} {state : HeaderParseState}
    {section_ : ParsedHeaderSection} :
    finishHeaderSection headerStart lineEnd state = .ok section_ ↔
      state.hostSeen = true ∧
      (state.transferEncodingSeen = false ∨ (state.bodySize = none ∧
        asciiCaseInsensitiveEqual state.transferEncoding (ascii "chunked") = true)) ∧
      section_ = ⟨state.headers,lineEnd + 2,state.bodySize.getD 0,state.transferEncodingSeen⟩ := by
  unfold finishHeaderSection validateFraming
  cases hh : state.hostSeen
  · simp [bind,Except.bind,throw,throwThe,MonadExceptOf.throw]
  · cases ht : state.transferEncodingSeen
    · simp [bind,Except.bind,pure,Except.pure]
      exact eq_comm
    · cases hb : state.bodySize with
      | some n => simp [bind,Except.bind]
      | none =>
        by_cases hc : asciiCaseInsensitiveEqual state.transferEncoding (ascii "chunked") = true
        · simp [bind,Except.bind,pure,Except.pure,hc]
          exact eq_comm
        · simp [hc]
          split <;> simp

theorem count_requestLine (t : RequestHeadText) :
    t.requestLine.count space = t.target.count space + t.version.count space + 2 := by
  have h := List.count_eq_zero.mpr (spelling_spaceless t.method)
  simp only [RequestHeadText.requestLine,List.count_append,List.count_cons_self,h]
  omega

/-- The framing that the parser reports is the one its fields denote. -/
theorem gathered_framing {limits : HttpRequestParserLimits} {fields : List HttpHeaderView}
    {state : HeaderParseState} (hg : Gathered limits fields state) :
    state.bodySize.getD 0 = ((valuesOf "Content-Length" fields).head?.map (numeral 10)).getD 0 ∧
      state.transferEncodingSeen = !(valuesOf "Transfer-Encoding" fields).isEmpty := by
  constructor
  · rcases hg.contentLength with ⟨h1,h2⟩ | ⟨v,h1,h2,-⟩ <;> simp [h1,h2]
  · rcases hg.transferEncoding with ⟨h1,h2⟩ | ⟨h1,h2⟩ <;> simp [h1,h2]

/-- Fields gathered up to an accepted empty line keep all the rules on fields. -/
theorem gathered_rules {limits : HttpRequestParserLimits} {fields : List HttpHeaderView}
    {state : HeaderParseState} (hg : Gathered limits fields state) (hh : state.hostSeen = true)
    (hf : state.transferEncodingSeen = false ∨ (state.bodySize = none ∧
      asciiCaseInsensitiveEqual state.transferEncoding (ascii "chunked") = true)) :
    (∃ v, valuesOf "Host" fields = [v] ∧ isValidHostAuthority v = true) ∧
    ((valuesOf "Content-Length" fields).length ≤ 1 ∧
      ∀ v ∈ valuesOf "Content-Length" fields, IsContentLength limits v) ∧
    ((valuesOf "Transfer-Encoding" fields).length ≤ 1 ∧
      ∀ v ∈ valuesOf "Transfer-Encoding" fields,
        asciiCaseInsensitiveEqual v (ascii "chunked") = true) ∧
    (valuesOf "Content-Length" fields = [] ∨ valuesOf "Transfer-Encoding" fields = []) := by
  have h1 : ∃ v, valuesOf "Host" fields = [v] ∧ isValidHostAuthority v = true := by
    rcases hg.host with ⟨h,-⟩ | ⟨-,h⟩
    · simp [hh] at h
    · exact h
  refine ⟨h1,?_,?_,?_⟩
  · rcases hg.contentLength with ⟨-,h⟩ | ⟨v,-,h,hv⟩
    · simp [h]
    · simpa [h] using hv
  · rcases hg.transferEncoding with ⟨-,h⟩ | ⟨hs,h⟩
    · simp [h]
    · rcases hf with hf | ⟨-,hf⟩
      · simp [hs] at hf
      · simpa [h] using hf
  · rcases hg.transferEncoding with ⟨-,h⟩ | ⟨hs,-⟩
    · exact Or.inr h
    · rcases hf with hf | ⟨hf,-⟩
      · simp [hs] at hf
      · rcases hg.contentLength with ⟨-,h⟩ | ⟨v,h,-⟩
        · exact Or.inl h
        · simp [hf] at h

theorem finishHeaderSection_ok {limits : HttpRequestParserLimits} {fields : List HttpHeaderView}
    {state : HeaderParseState} (headerStart lineEnd : ℕ) (hg : Gathered limits fields state)
    (hh : valuesOf "Host" fields ≠ [])
    (ht : ∀ v ∈ valuesOf "Transfer-Encoding" fields,
      asciiCaseInsensitiveEqual v (ascii "chunked") = true)
    (hf : valuesOf "Content-Length" fields = [] ∨ valuesOf "Transfer-Encoding" fields = []) :
    finishHeaderSection headerStart lineEnd state =
      .ok ⟨fields,lineEnd + 2,
        ((valuesOf "Content-Length" fields).head?.map (numeral 10)).getD 0,
        !(valuesOf "Transfer-Encoding" fields).isEmpty⟩ := by
  obtain ⟨hlength,hchunked⟩ := gathered_framing hg
  rw [← hlength,← hchunked,← hg.headers]
  refine finishHeaderSection_eq_ok_iff.mpr ⟨?_,?_,rfl⟩
  · rcases hg.host with ⟨-,h⟩ | ⟨h,-⟩
    · exact absurd h hh
    · exact h
  · rcases hg.transferEncoding with ⟨h,-⟩ | ⟨-,h⟩
    · exact Or.inl h
    · refine Or.inr ⟨?_,ht _ (by simp [h])⟩
      rcases hg.contentLength with ⟨hb,-⟩ | ⟨v,-,hv,-⟩
      · exact hb
      · simp [h,hv] at hf

theorem drop_requestLine (line rest : Bytes) :
    (line ++ crlf ++ rest).drop (line.length + 2) = rest :=
  List.drop_left' (by simp [crlf])

theorem parseHttpRequestHead_eq_some_iff {input : Bytes} {limits : HttpRequestParserLimits}
    {head : HttpRequestHead} :
    parseHttpRequestHead input limits = .ok (some head) ↔
      ∃ line rest method target section_, input = line ++ crlf ++ rest ∧ cr ∉ line ∧ lf ∉ line ∧
        line.length ≤ limits.maxRequestLineBytes ∧ parseRequestLine line = .ok (method,target) ∧
        parseHeaderLines input (line.length + 2) limits (line.length + 2) {} =
          .ok (some section_) ∧
        head = ⟨method,target.routingTarget,overrideHost target.authority section_.headers,
          section_.bodyStart,section_.bodySize,section_.chunked⟩ := by
  constructor
  · intro h
    unfold parseHttpRequestHead at h
    split at h
    · simp at h
    · split at h
      · simp at h
      · simp at h
      · next requestLineEnd hend =>
        obtain ⟨line,rest,rfl,hc,hl,hstop,hm⟩ := findRequestLineEndFrom_eq_some_iff.mp hend
        obtain rfl : requestLineEnd = line.length := by omega
        split at h
        · simp at h
        · next method target hline =>
          rw [List.append_assoc,List.take_left] at hline
          split at h
          · simp at h
          · simp at h
          · next section_ hsection =>
            exact ⟨line,rest,method,target,section_,rfl,hc,hl,hm,hline,hsection,
              (Option.some.inj (Except.ok.inj h)).symm⟩
  · rintro ⟨line,rest,method,target,section_,rfl,hc,hl,hm,hline,hsection,rfl⟩
    have hend : findRequestLineEnd (line ++ crlf ++ rest) limits.maxRequestLineBytes =
        .ok (some line.length) :=
      findRequestLineEndFrom_eq_some_iff.mpr ⟨line,rest,rfl,hc,hl,by omega,hm⟩
    have htake : (line ++ crlf ++ rest).take line.length = line := by
      rw [List.append_assoc,List.take_left]
    rw [parseHttpRequestHead,if_neg (by simp [crlf]),hend]
    simp only [htake,hline]
    rw [parseHeaderSection,hsection]

theorem parseHttpRequestHead_sound {input : Bytes} {limits : HttpRequestParserLimits}
    {head : HttpRequestHead} (h : parseHttpRequestHead input limits = .ok (some head)) :
    ∃ t : RequestHeadText, t.Valid limits ∧ t.render <+: input ∧ head = t.head := by
  obtain ⟨line,rest,method,target,section_,rfl,hc,hl,hm,hline,hsection,rfl⟩ :=
    parseHttpRequestHead_eq_some_iff.mp h
  obtain ⟨t,version,rfl,ht,hv,htarget,hversion⟩ := parseRequestLine_eq_ok_iff.mp hline
  obtain ⟨lines,tail,final,hi,hlines,hg,hfinish,hsize,hcount⟩ :=
    parseHeaderLines_sound le_rfl (Gathered.start limits) (Nat.zero_le _) hsection
  rw [drop_requestLine] at hi
  rw [List.nil_append] at hg
  obtain ⟨hhost,hframing,rfl⟩ := finishHeaderSection_eq_ok_iff.mp hfinish
  obtain ⟨h1,h2,h3,h4⟩ := gathered_rules hg hhost hframing
  obtain ⟨hlength,hchunked⟩ := gathered_framing hg
  refine ⟨⟨method,t,target.routingTarget,target.authority,version,lines⟩,
    ⟨⟨hc,hl,fun l hmem => (hlines l hmem).2⟩,?_,htarget,hversion,fun l hmem => (hlines l hmem).1,hm,
      ?_,by simpa using hcount,h1,h2,h3,h4⟩,⟨tail,?_⟩,?_⟩
  · rw [count_requestLine,List.count_eq_zero.mpr ht,List.count_eq_zero.mpr hv]
  · simp only [RequestHeadText.headerSection,List.length_append,crlf,List.length_cons,
      List.length_nil]
    omega
  · simp [RequestHeadText.render,RequestHeadText.requestLine,RequestHeadText.headerSection,hi]
  · simp only [RequestHeadText.head,HttpRequestHead.mk.injEq,true_and]
    refine ⟨by rw [hg.headers]; rfl,?_,hlength,hchunked⟩
    simp only [RequestHeadText.render,RequestHeadText.requestLine,RequestHeadText.headerSection,
      List.length_append,crlf,List.length_cons,List.length_nil]
    omega

theorem parseHttpRequestHead_complete {limits : HttpRequestParserLimits} {t : RequestHeadText}
    (h : t.Valid limits) (rest : Bytes) :
    parseHttpRequestHead (t.render ++ rest) limits = .ok (some t.head) := by
  obtain ⟨⟨hc,hl,hterm⟩,hspaces,htarget,hversion,hlines,hm,hsize,hcount,⟨host,hhost,hvalid⟩,hlength,
    hencoding,hframing⟩ := h
  rw [count_requestLine] at hspaces
  have hline : parseRequestLine t.requestLine = .ok (t.method,⟨t.routingTarget,t.authority⟩) :=
    parseRequestLine_eq_ok_iff.mpr ⟨t.target,t.version,rfl,
      List.count_eq_zero.mp (by omega),List.count_eq_zero.mp (by omega),htarget,hversion⟩
  have hsplit : t.render ++ rest = t.requestLine ++ crlf ++ (t.headerSection ++ rest) := by
    rw [RequestHeadText.render,List.append_assoc]
  rw [hsplit]
  have hadmissible : Admissible limits ([] ++ t.fields) :=
    ⟨⟨by simp [hhost],by simpa [hhost] using hvalid⟩,hlength,hencoding.1⟩
  simp only [RequestHeadText.headerSection,List.length_append,crlf,List.length_cons,
    List.length_nil] at hsize
  obtain ⟨final,hg,hloop⟩ := parseHeaderLines_complete t.lines (le_refl (t.requestLine.length + 2))
    (Gathered.start limits) (drop_requestLine t.requestLine (t.headerSection ++ rest))
    (fun l hmem => ⟨hlines l hmem,hterm l hmem⟩) hadmissible (by omega)
    (by simpa using hcount)
  rw [List.nil_append] at hg
  have hfinish := finishHeaderSection_ok (t.requestLine.length + 2)
    (t.requestLine.length + 2 + (renderLines t.lines).length) hg
    (by rw [show t.lines.map HeaderLine.field = t.fields from rfl,hhost]; simp) hencoding.2 hframing
  rw [hfinish] at hloop
  refine parseHttpRequestHead_eq_some_iff.mpr
    ⟨t.requestLine,_,t.method,_,_,rfl,hc,hl,hm,hline,hloop,?_⟩
  simp only [RequestHeadText.head,HttpRequestHead.mk.injEq,true_and]
  refine ⟨rfl,?_,rfl,rfl⟩
  simp only [RequestHeadText.render,RequestHeadText.headerSection,List.length_append,crlf,
    List.length_cons,List.length_nil]
  omega

theorem head_bounds {input : Bytes} {limits : HttpRequestParserLimits} {head : HttpRequestHead}
    (h : parseHttpRequestHead input limits = .ok (some head)) :
    head.consumedBytes ≤ input.length ∧ head.contentLength ≤ limits.maxBodyBytes := by
  obtain ⟨t,ht,hhead,rfl⟩ := parseHttpRequestHead_sound h
  refine ⟨hhead.length_le,?_⟩
  cases hl : t.contentLengths with
  | nil => simp [RequestHeadText.head,hl]
  | cons v rest =>
    have hv := ht.contentLength.2 v (by simp [hl])
    simpa [RequestHeadText.head,hl] using hv.2.2.2

theorem head_framing {input : Bytes} {limits : HttpRequestParserLimits} {head : HttpRequestHead}
    (h : parseHttpRequestHead input limits = .ok (some head)) (hchunked : head.chunked = true) :
    head.contentLength = 0 := by
  obtain ⟨t,ht,-,rfl⟩ := parseHttpRequestHead_sound h
  rcases ht.framing with hlength | hcoding
  · simp [RequestHeadText.head,hlength]
  · simp [RequestHeadText.head,hcoding] at hchunked

/-- The parser reports a head of `n` bytes exactly when the first `n` bytes are a valid
head text. Any such text determines all that is reported, the framing included. -/
theorem parseHttpRequestHead_accepts (input : Bytes) (limits : HttpRequestParserLimits) :
    (∀ n, (∃ head, parseHttpRequestHead input limits = .ok (some head) ∧ head.consumedBytes = n) ↔
      n ≤ input.length ∧ ∃ t : RequestHeadText, t.render = input.take n ∧ t.Valid limits) ∧
    (∀ head, parseHttpRequestHead input limits = .ok (some head) →
      ∀ t : RequestHeadText, t.render = input.take head.consumedBytes → t.Valid limits →
        head.method = t.method ∧ head.target = t.routingTarget ∧
        head.fields = overrideHost t.authority t.fields ∧
        (head.chunked = true ↔ t.transferEncodings ≠ []) ∧
        (t.contentLengths = [] → head.contentLength = 0) ∧
        (∀ v ∈ t.contentLengths, head.contentLength = numeral 10 v)) := by
  have hparse {n : ℕ} {t : RequestHeadText} (hr : t.render = input.take n) (ht : t.Valid limits) :
      parseHttpRequestHead input limits = .ok (some t.head) := by
    have h := parseHttpRequestHead_complete ht (input.drop n)
    rwa [hr,List.take_append_drop] at h
  constructor
  · intro n
    constructor
    · rintro ⟨head,h,rfl⟩
      obtain ⟨t,ht,⟨rest,rfl⟩,rfl⟩ := parseHttpRequestHead_sound h
      exact ⟨by simp [RequestHeadText.head],t,by simp [RequestHeadText.head],ht⟩
    · rintro ⟨hn,t,hr,ht⟩
      refine ⟨t.head,hparse hr ht,?_⟩
      rw [RequestHeadText.head,hr,List.length_take,Nat.min_eq_left hn]
  · intro head h t hr ht
    rw [hparse hr ht] at h
    obtain rfl := Option.some.inj (Except.ok.inj h)
    refine ⟨rfl,rfl,rfl,by simp [RequestHeadText.head],?_,?_⟩
    · intro hnone
      simp [RequestHeadText.head,hnone]
    · intro v hv
      have hone := ht.contentLength.1
      obtain ⟨w,hw⟩ := List.length_eq_one_iff.mp
        (Nat.le_antisymm hone (List.length_pos_of_mem hv))
      rw [hw,List.mem_singleton] at hv
      simp [RequestHeadText.head,hw,hv]

/-- A chunked request in front of its body. -/
theorem parseHttpRequestHead_accepts_chunked :
    ∃ t : RequestHeadText, t.render = ascii "POST /u HTTP/1.1\r\nHost: h\r\nTransfer-Encoding: Chunked\r\n\r\n" ∧
      t.Valid {} ∧ t.transferEncodings ≠ [] := by
  have hp : parseHttpRequestHead
      (ascii "POST /u HTTP/1.1\r\nHost: h\r\nTransfer-Encoding: Chunked\r\n\r\n5\r\n") {} =
      .ok (some ⟨.post,ascii "/u",[⟨ascii "Host",ascii "h"⟩,
        ⟨ascii "Transfer-Encoding",ascii "Chunked"⟩],57,0,true⟩) := by decide +kernel
  have hall := parseHttpRequestHead_accepts
    (ascii "POST /u HTTP/1.1\r\nHost: h\r\nTransfer-Encoding: Chunked\r\n\r\n5\r\n") {}
  obtain ⟨-,t,hr,ht⟩ := (hall.1 57).mp ⟨_,hp,rfl⟩
  exact ⟨t,hr.trans (by decide),ht,(hall.2 _ hp t hr ht).2.2.2.1.mp rfl⟩

end SpareNode.Http
