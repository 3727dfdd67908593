import SpareNode.Http.Request.Stability

/-! # The request-head grammar

`RequestHeadText` is a head taken apart, with the optional whitespace that the parser
drops. `RequestHeadText.Valid` collects every rule on it, and the parser accepts an
input exactly when some valid head text is written at its start. Which bytes belong
to the body is a function of that text.
-/
namespace SpareNode.Http
open Incremental

/-- One header line in front of its CRLF. -/
structure HeaderLine where
  name : Bytes
  lead : Bytes
  value : Bytes
  trail : Bytes
  deriving DecidableEq

namespace HeaderLine

def text (l : HeaderLine) : Bytes := l.name ++ colon :: (l.lead ++ l.value ++ l.trail)
def field (l : HeaderLine) : HttpHeaderView := ⟨l.name,l.value⟩

structure Valid (l : HeaderLine) : Prop where
  name : IsToken l.name
  lead : l.lead.all isOptionalWhitespace = true
  trail : l.trail.all isOptionalWhitespace = true
  trimmed : Trimmed l.value
  value : l.value.all isHttpFieldValueByte = true

end HeaderLine

/-- The lines of a header section with their terminators. -/
def renderLines (lines : List HeaderLine) : Bytes := (lines.map (fun l => l.text ++ crlf)).flatten

/-- The values of all fields with one case-insensitive name. -/
def valuesOf (name : String) (fields : List HttpHeaderView) : List Bytes :=
  (fields.filter (isNamed name)).map HttpHeaderView.value

/-- A nonempty decimal that fits `size_t` and the body limit. -/
def IsContentLength (limits : HttpRequestParserLimits) (value : Bytes) : Prop :=
  value ≠ [] ∧ value.all (isDigit 10) = true ∧ numeral 10 value ≤ sizeMax ∧
    numeral 10 value ≤ limits.maxBodyBytes

/-- A request head taken apart. The routing target and the authority are what the
target denotes for the method. -/
structure RequestHeadText where
  method : HttpMethod
  target : Bytes
  routingTarget : Bytes
  authority : Bytes
  version : Bytes
  lines : List HeaderLine

namespace RequestHeadText

def requestLine (t : RequestHeadText) : Bytes :=
  t.method.spelling ++ space :: (t.target ++ space :: t.version)
def fields (t : RequestHeadText) : List HttpHeaderView := t.lines.map HeaderLine.field
def headerSection (t : RequestHeadText) : Bytes := renderLines t.lines ++ crlf
def render (t : RequestHeadText) : Bytes := t.requestLine ++ crlf ++ t.headerSection
def contentLengths (t : RequestHeadText) : List Bytes := valuesOf "Content-Length" t.fields
def transferEncodings (t : RequestHeadText) : List Bytes := valuesOf "Transfer-Encoding" t.fields

/-- The grammar of a head, its limits and its framing rules. -/
structure Valid (limits : HttpRequestParserLimits) (t : RequestHeadText) : Prop where
  terminators : cr ∉ t.requestLine ∧ lf ∉ t.requestLine ∧
    ∀ l ∈ t.lines, cr ∉ l.text ∧ lf ∉ l.text
  spaces : t.requestLine.count space = 2
  target : ValidTarget t.method t.target t.routingTarget t.authority
  version : ValidVersion t.version
  lines : ∀ l ∈ t.lines, l.Valid
  requestLineSize : t.requestLine.length ≤ limits.maxRequestLineBytes
  headerSize : t.headerSection.length ≤ limits.maxHeaderBytes
  headerCount : t.lines.length ≤ limits.maxHeaderCount
  host : ∃ value, valuesOf "Host" t.fields = [value] ∧ isValidHostAuthority value = true
  contentLength : t.contentLengths.length ≤ 1 ∧ ∀ v ∈ t.contentLengths, IsContentLength limits v
  transferEncoding : t.transferEncodings.length ≤ 1 ∧
    ∀ v ∈ t.transferEncodings, asciiCaseInsensitiveEqual v (ascii "chunked") = true
  framing : t.contentLengths = [] ∨ t.transferEncodings = []

def head (t : RequestHeadText) : HttpRequestHead where
  method := t.method
  target := t.routingTarget
  fields := overrideHost t.authority t.fields
  consumedBytes := t.render.length
  contentLength := (t.contentLengths.head?.map (numeral 10)).getD 0
  chunked := !t.transferEncodings.isEmpty

end RequestHeadText

theorem findRequestLineEndFrom_eq_some_iff {maximum index stop : ℕ} {rest : Bytes} :
    findRequestLineEndFrom maximum index rest = .ok (some stop) ↔
      ∃ line tail, rest = line ++ crlf ++ tail ∧ cr ∉ line ∧ lf ∉ line ∧
        stop = index + line.length ∧ stop ≤ maximum := by
  constructor
  · intro h
    fun_induction findRequestLineEndFrom maximum index rest with
    | case6 index next tail hn hm =>
      obtain rfl := Option.some.inj (Except.ok.inj h)
      obtain rfl : next = lf := by simpa using hn
      exact ⟨[],tail,rfl,by simp,by simp,by simp,by omega⟩
    | case8 index b rest hl hc hm ih =>
      obtain ⟨line,tail,rfl,h1,h2,h3,h4⟩ := ih h
      exact ⟨b :: line,tail,rfl,by simp [h1,Ne.symm hc],by simp [h2,Ne.symm hl],
        by simp only [List.length_cons]; omega,h4⟩
    | _ => simp at h
  · rintro ⟨line,tail,rfl,hc,hl,rfl,hm⟩
    induction line generalizing index with
    | nil =>
      simp only [List.length_nil,Nat.add_zero] at hm ⊢
      simp [crlf,findRequestLineEndFrom,show cr ≠ lf by decide,Nat.not_lt.mpr hm]
    | cons b line ih =>
      simp only [List.mem_cons,not_or,List.length_cons] at hc hl hm
      have hstep := @ih (index + 1) hc.2 hl.2 (by omega)
      rw [List.cons_append,List.cons_append,findRequestLineEndFrom.eq_def]
      dsimp only
      rw [if_neg (Ne.symm hl.1),if_neg (Ne.symm hc.1),if_neg (by omega),hstep,List.length_cons,
        Nat.add_right_comm,Nat.add_assoc]

theorem findHeaderLineEndFrom_eq_some_iff {headerStart maximum index stop : ℕ} {rest : Bytes}
    (hs : headerStart ≤ index) :
    findHeaderLineEndFrom headerStart maximum index rest = .ok (some stop) ↔
      ∃ line tail, rest = line ++ crlf ++ tail ∧ cr ∉ line ∧ lf ∉ line ∧
        stop = index + line.length ∧ stop + 2 ≤ headerStart + maximum := by
  constructor
  · intro h
    fun_induction findHeaderLineEndFrom headerStart maximum index rest with
    | case4 index b rest hroom hl hc ih =>
      obtain ⟨line,tail,rfl,h1,h2,h3,h4⟩ := ih (by omega) h
      exact ⟨b :: line,tail,rfl,by simp [h1,Ne.symm hc],by simp [h2,Ne.symm hl],
        by simp only [List.length_cons]; omega,h4⟩
    | case8 index b hroom hl hc next tail hn hm =>
      obtain rfl := Option.some.inj (Except.ok.inj h)
      obtain rfl : b = cr := by simpa using hc
      obtain rfl : next = lf := by simpa using hn
      exact ⟨[],tail,rfl,by simp,by simp,by simp,by omega⟩
    | _ => simp at h
  · rintro ⟨line,tail,rfl,hc,hl,rfl,hm⟩
    induction line generalizing index with
    | nil =>
      simp only [List.length_nil,Nat.add_zero] at hm ⊢
      rw [List.nil_append,crlf,List.cons_append,List.singleton_append,
        findHeaderLineEndFrom.eq_def]
      dsimp only
      rw [if_neg (by omega),if_neg (by decide),if_neg (by simp),if_neg (by simp),
        if_neg (by omega)]
    | cons b line ih =>
      simp only [List.mem_cons,not_or,List.length_cons] at hc hl hm
      have hstep := @ih (index + 1) (by omega) hc.2 hl.2 (by omega)
      rw [List.cons_append,List.cons_append,findHeaderLineEndFrom.eq_def]
      dsimp only
      rw [if_neg (by omega),if_neg (Ne.symm hl.1),if_pos (Ne.symm hc.1),hstep,List.length_cons,
        Nat.add_right_comm,Nat.add_assoc]

theorem parseMethod_eq_ok_iff {s : Bytes} {offset : ℕ} {method : HttpMethod} :
    parseMethod s offset = .ok method ↔ s = method.spelling := by
  constructor
  · intro h
    unfold parseMethod at h
    repeat' split at h
    all_goals first
      | (simp at h; done)
      | (obtain rfl := Except.ok.inj h; assumption)
  · rintro rfl
    cases method <;> rfl

theorem spelling_spaceless (method : HttpMethod) : space ∉ method.spelling := by
  cases method <;> decide

theorem parseRequestLine_split {m t version : Bytes} (hm : space ∉ m) (ht : space ∉ t) :
    parseRequestLine (m ++ space :: (t ++ space :: version)) =
      if space ∈ version then .error ⟨.malformedRequestLine,m.length + 1⟩
      else do
        let method ← parseMethod m 0
        let target ← parseRequestTarget t method (m.length + 1)
        validateRequestVersion version (t.length + (m.length + 1) + 1)
        return (method,target) := by
  have h1 := find_append (t ++ space :: version) hm
  have h2 : findFrom space (m ++ space :: (t ++ space :: version)) (m.length + 1) =
      some (t.length + (m.length + 1)) := by
    rw [findFrom,drop_cons_append,find_append version ht]
    rfl
  have hdrop : (m ++ space :: (t ++ space :: version)).drop (t.length + (m.length + 1) + 1) =
      version := by
    rw [show t.length + (m.length + 1) + 1 = (m.length + 1) + (t.length + 1) by omega,
      ← List.drop_drop,drop_cons_append,drop_cons_append]
  have h3 : (findFrom space (m ++ space :: (t ++ space :: version))
      (t.length + (m.length + 1) + 1)).isSome = true ↔ space ∈ version := by
    rw [findFrom,hdrop,Option.isSome_map,Option.isSome_iff_ne_none,ne_eq,find_eq_none_iff,not_not]
  have htarget : substr (m ++ space :: (t ++ space :: version)) (m.length + 1)
      (t.length + (m.length + 1) - m.length - 1) = t := by
    rw [substr,drop_cons_append,show t.length + (m.length + 1) - m.length - 1 = t.length by omega,
      List.take_left]
  simp only [parseRequestLine,h1,h2,h3,htarget,hdrop,List.take_left]

theorem parseRequestLine_eq_ok_iff {line : Bytes} {method : HttpMethod}
    {target : ParsedRequestTarget} :
    parseRequestLine line = .ok (method,target) ↔
      ∃ t version, line = method.spelling ++ space :: (t ++ space :: version) ∧ space ∉ t ∧
        space ∉ version ∧ ValidTarget method t target.routingTarget target.authority ∧
        ValidVersion version := by
  constructor
  · intro h
    cases h1 : find space line with
    | none => simp [parseRequestLine,h1] at h
    | some firstSpace =>
      obtain ⟨m,rest,rfl,hm,rfl⟩ := find_eq_some_iff.mp h1
      cases h2 : find space rest with
      | none => simp [parseRequestLine,h1,findFrom,h2] at h
      | some secondSpace =>
        obtain ⟨t,version,rfl,ht,rfl⟩ := find_eq_some_iff.mp h2
        rw [parseRequestLine_split hm ht] at h
        split at h
        · simp at h
        · next hv =>
          rcases hmethod : parseMethod m 0 with e | method'
          · simp [hmethod,bind,Except.bind] at h
          · rcases hparsed : parseRequestTarget t method' (m.length + 1) with e | ⟨routing,authority⟩
            · simp [hmethod,hparsed,bind,Except.bind] at h
            · rcases hversion : validateRequestVersion version (t.length + (m.length + 1) + 1) with
                e | ⟨⟩
              · simp [hmethod,hparsed,hversion,bind,Except.bind] at h
              · simp only [hmethod,hparsed,hversion,bind,Except.bind,pure,Except.pure,
                  Except.ok.injEq,Prod.mk.injEq] at h
                obtain ⟨rfl,rfl⟩ := h
                obtain rfl := parseMethod_eq_ok_iff.mp hmethod
                exact ⟨t,version,rfl,ht,hv,parseRequestTarget_eq_ok_iff.mp hparsed,
                  validateRequestVersion_eq_ok_iff.mp hversion⟩
  · rintro ⟨t,version,rfl,ht,hv,htarget,hversion⟩
    rw [parseRequestLine_split (spelling_spaceless method) ht,if_neg hv,
      parseMethod_eq_ok_iff.mpr rfl]
    simp only [bind,Except.bind,pure,Except.pure,parseRequestTarget_eq_ok_iff.mpr htarget,
      validateRequestVersion_eq_ok_iff.mpr hversion]

theorem parseHeaderField_eq_ok_iff (line : Bytes) (lineStart : ℕ) (field : HttpHeaderView) :
    (∃ valueStart, parseHeaderField line lineStart = .ok ⟨field,lineStart,valueStart⟩) ↔
      ∃ l : HeaderLine, l.text = line ∧ l.field = field ∧ l.Valid := by
  constructor
  · rintro ⟨valueStart,h⟩
    unfold parseHeaderField at h
    split at h
    · simp at h
    · split at h
      · simp at h
      · next at_ hat =>
        obtain ⟨name,rest,rfl,hn,rfl⟩ := find_eq_some_iff.mp hat
        simp only [List.take_left,drop_cons_append] at h
        split at h
        · simp at h
        · next hne =>
          split at h
          · simp at h
          · next hname =>
            split at h
            · simp at h
            · next hvalue =>
              obtain rfl := (ParsedHeaderField.mk.inj (Except.ok.inj h)).1
              obtain ⟨lead,trail,hrest,hl,ht,htrim⟩ := trimOptionalWhitespace_spec rest
              refine ⟨⟨name,lead,trimOptionalWhitespace rest,trail⟩,?_,rfl,⟨⟨?_,by simpa using hname⟩,hl,
                ht,htrim,by simpa using hvalue⟩⟩
              · rw [HeaderLine.text,← hrest]
              · rintro rfl
                exact hne rfl
  · rintro ⟨⟨name,lead,value,trail⟩,rfl,rfl,⟨⟨hne,hname⟩,hl,ht,htrim,hvalue⟩⟩
    dsimp only at hne hname hl ht htrim hvalue
    have hcolon : colon ∉ name := not_mem_of_all hname (by decide)
    obtain ⟨first,tail,rfl⟩ := List.exists_cons_of_ne_nil hne
    have hfirst : isOptionalWhitespace first = false := by
      simp only [List.all_cons,Bool.and_eq_true] at hname
      exact not_whitespace_of_token hname.1
    refine ⟨lineStart + (first :: tail).length + 1 +
      ((lead ++ value ++ trail).takeWhile isOptionalWhitespace).length,?_⟩
    have hfold : ((first :: tail ++ colon :: (lead ++ value ++ trail)).head?.any
        isOptionalWhitespace) = false := by simpa using hfirst
    simp only [HeaderLine.text,parseHeaderField,hfold,find_append _ hcolon,List.take_left,
      drop_cons_append,hname,trimOptionalWhitespace_append hl ht htrim,hvalue,HeaderLine.field]
    simp

end SpareNode.Http
