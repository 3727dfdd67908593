import SpareNode.Http.Request.HeadSimulation

/-! # Absolute-form requests

A request that names its target with scheme and authority and one that puts the authority into its
Host field are the same request behind the parser, and what the parser reports as target is a path
with its query in every case.
-/
namespace SpareNode.Http

def originForm (path : Bytes) : Bytes := if path.head? = some (char '/') then path else char '/' :: path

def IsPathAndQuery (path : Bytes) : Prop :=
  path = [] ∨ path.head? = some (char '?') ∨ path.head? = some (char '/')

section
variable {scheme authority path : Bytes} (hscheme : asciiCaseInsensitiveEqual scheme (ascii "http") = true)
  (hauthority : isValidHostAuthority authority = true) (hpath : IsPathAndQuery path)
include hscheme hauthority hpath

/-- Both spellings have the same routing target, or both have none. -/
theorem parseRequestTarget_same (method : HttpMethod) (offset offset' : ℕ) :
    SameOutcome (fun p p' => p = ⟨p'.routingTarget,authority⟩ ∧ p'.authority = [])
      (parseRequestTarget (scheme ++ ascii "://" ++ (authority ++ path)) method offset)
      (parseRequestTarget (originForm path) method offset') := by
  have habsolute : parseRequestTarget (scheme ++ ascii "://" ++ (authority ++ path)) method offset =
      parseAbsoluteForm (authority ++ path) ⟨.invalidRequestTarget,offset⟩ := by
    have hhttp := hasHttpScheme_iff.mpr ⟨scheme,authority ++ path,rfl,hscheme⟩
    have hdrop := drop_scheme (authority ++ path) hscheme
    obtain ⟨a,b,c,d,rfl,ha,-⟩ := scheme_cases hscheme
    have hslash : some a ≠ some (char '/') := by rcases ha with rfl | rfl <;> decide
    rw [parseRequestTarget,if_neg (by simp),if_neg (by simpa using hslash),if_pos hhttp,hdrop]
  have hslash : (originForm path).head? = some (char '/') := by
    unfold originForm
    split
    · assumption
    · rfl
  have hstar : originForm path ≠ [char '*'] := by
    intro hstar
    rw [hstar] at hslash
    exact absurd hslash (by decide)
  have horigin : parseRequestTarget (originForm path) method offset' =
      if validRequestTarget (originForm path) then .ok ⟨originForm path,[]⟩
      else .error ⟨.invalidRequestTarget,offset'⟩ := by
    rw [parseRequestTarget,if_neg hstar,if_pos hslash]
  have hinside := (isValidHostAuthority_text hauthority).inside
  have hstop : ∀ b ∈ path.head?, (!isAuthorityEnd b) = false := by
    intro b hb
    rcases hpath with rfl | hhead | hhead
    · cases hb
    all_goals
      obtain rfl := Option.some.inj (hhead.symm.trans hb)
      decide
  rw [habsolute,horigin]
  simp only [parseAbsoluteForm,takeWhile_append_of hinside hstop,dropWhile_append_of hinside hstop,hauthority,
    Bool.true_eq_false,if_false]
  by_cases hempty : path = []
  · subst hempty
    rw [if_pos rfl,if_pos (by decide)]
    exact .ok ⟨rfl,rfl⟩
  · have hrouting : (if path.head? = some (char '?') then char '/' :: path else path) = originForm path := by
      unfold originForm
      rcases hpath with rfl | hhead | hhead
      · exact absurd rfl hempty
      · rw [if_pos hhead,if_neg (by rw [hhead]; decide)]
      · rw [if_pos hhead,if_neg (by rw [hhead]; decide)]
    rw [if_neg hempty,hrouting]
    split
    · exact .ok ⟨rfl,rfl⟩
    · exact .error rfl

omit hscheme hauthority hpath in
theorem validateRequestVersion_same (version : Bytes) (offset offset' : ℕ) :
    SameOutcome (fun _ _ => True) (validateRequestVersion version offset)
      (validateRequestVersion version offset') := by
  unfold validateRequestVersion
  repeat' split
  all_goals first
    | exact .ok trivial
    | exact .error rfl

theorem parseRequestLine_same (method : HttpMethod) (version : Bytes) :
    SameOutcome (fun p p' => p.1 = p'.1 ∧ p.2 = ⟨p'.2.routingTarget,authority⟩ ∧ p'.2.authority = [])
      (parseRequestLine (method.spelling ++ space ::
        ((scheme ++ ascii "://" ++ (authority ++ path)) ++ space :: version)))
      (parseRequestLine (method.spelling ++ space :: (originForm path ++ space :: version))) := by
  have hmethod := spelling_spaceless method
  have hfront : space ∉ scheme ++ ascii "://" ++ authority := by
    obtain ⟨a,b,c,d,rfl,ha,hb,hc,hd⟩ := scheme_cases hscheme
    have htext := (isValidHostAuthority_text hauthority).unbroken.2.2
    rcases ha with rfl | rfl <;> rcases hb with rfl | rfl <;> rcases hc with rfl | rfl <;>
      rcases hd with rfl | rfl <;> simpa [ascii,space,char] using htext
  have hslash : space ∉ (if path.head? = some (char '/') then [] else [char '/'] : Bytes) := by
    split <;> decide
  have horigin : originForm path =
      (if path.head? = some (char '/') then [] else [char '/'] : Bytes) ++ path := by
    unfold originForm
    split <;> rfl
  cases hfind : find space path with
  | some i =>
    -- the first space inside the path ends the target of both lines, and another one follows
    obtain ⟨a,b,rfl,ha,-⟩ := find_eq_some_iff.mp hfind
    have hmany : space ∈ b ++ space :: version := List.mem_append_right _ List.mem_cons_self
    have hleft := @parseRequestLine_split method.spelling (scheme ++ ascii "://" ++ authority ++ a)
      (b ++ space :: version) hmethod (by rw [List.mem_append,not_or]; exact ⟨hfront,ha⟩)
    have hright := @parseRequestLine_split method.spelling
      ((if (a ++ space :: b).head? = some (char '/') then [] else [char '/'] : Bytes) ++ a)
      (b ++ space :: version) hmethod (by rw [List.mem_append,not_or]; exact ⟨hslash,ha⟩)
    rw [if_pos hmany] at hleft hright
    rw [horigin]
    simp only [List.append_assoc,List.cons_append] at hleft hright ⊢
    rw [hleft,hright]
    exact .error rfl
  | none =>
    have hspace := find_eq_none_iff.mp hfind
    have hleft : space ∉ scheme ++ ascii "://" ++ (authority ++ path) := by
      rw [← List.append_assoc,List.mem_append,not_or]
      exact ⟨hfront,hspace⟩
    have hright : space ∉ originForm path := by
      rw [horigin,List.mem_append,not_or]
      exact ⟨hslash,hspace⟩
    rw [parseRequestLine_split hmethod hleft,parseRequestLine_split hmethod hright]
    split
    · exact .error rfl
    · rw [parseMethod_eq_ok_iff.mpr rfl]
      apply (parseRequestTarget_same hscheme hauthority hpath method _ _).bind
      intro p p' hp
      exact (validateRequestVersion_same version _ _).bind fun _ _ _ => .ok ⟨rfl,hp⟩

omit hscheme hauthority hpath in
theorem parseHttpRequestHead_line {line rest : Bytes} {limits : HttpRequestParserLimits} (hline : cr ∉ line ∧ lf ∉ line)
    (hsize : line.length ≤ limits.maxRequestLineBytes) :
    parseHttpRequestHead (line ++ crlf ++ rest) limits =
      (parseRequestLine line >>= fun parsed =>
        parseHeaderSection (line ++ crlf ++ rest) (line.length + 2) limits >>= fun section_ =>
          .ok (section_.map fun section_ => ⟨parsed.1,parsed.2.routingTarget,
            overrideHost parsed.2.authority section_.headers,section_.bodyStart,section_.bodySize,
            section_.chunked⟩)) := by
  have hend : findRequestLineEnd (line ++ crlf ++ rest) limits.maxRequestLineBytes = .ok (some line.length) :=
    findRequestLineEndFrom_eq_some_iff.mpr ⟨line,rest,rfl,hline.1,hline.2,by omega,hsize⟩
  have htake : (line ++ crlf ++ rest).take line.length = line := by
    rw [List.append_assoc,List.take_left]
  rw [parseHttpRequestHead,if_neg (by simp [crlf]),hend]
  simp only [htake]
  cases parseRequestLine line with
  | error e => rfl
  | ok parsed =>
    obtain ⟨method,target⟩ := parsed
    dsimp only
    simp only [bind,Except.bind]
    cases parseHeaderSection (line ++ crlf ++ rest) (line.length + 2) limits with
    | error e => rfl
    | ok section_ => cases section_ <;> rfl

end

/-- A head around its target and its Host value: the rest of the request line and the other header
lines, in front of the Host line and behind it. -/
structure HeadFrame where
  method : HttpMethod
  version : Bytes
  before : List Bytes
  host : HostLine
  after : List Bytes
  versionLine : cr ∉ version ∧ lf ∉ version
  otherLines : ∀ line ∈ before ++ after, IsLine line

namespace HeadFrame

def requestLine (frame : HeadFrame) (target : Bytes) : Bytes :=
  frame.method.spelling ++ space :: (target ++ space :: frame.version)

def lines (frame : HeadFrame) (value : Bytes) : List Bytes :=
  frame.before ++ (frame.host.line value).text :: frame.after

def headerSection (frame : HeadFrame) (value : Bytes) : Bytes := sectionText (frame.lines value) ++ crlf

/-- The head with a target and a Host value. -/
def text (frame : HeadFrame) (target value : Bytes) : Bytes :=
  frame.requestLine target ++ crlf ++ frame.headerSection value

/-- The two sizes that the parser bounds by bytes. -/
structure Fits (frame : HeadFrame) (limits : HttpRequestParserLimits) (target value : Bytes) : Prop where
  requestLine : (frame.requestLine target).length ≤ limits.maxRequestLineBytes
  headerSection : (frame.headerSection value).length ≤ limits.maxHeaderBytes

theorem requestLine_unbroken (frame : HeadFrame) {target : Bytes} (h : cr ∉ target ∧ lf ∉ target) :
    cr ∉ frame.requestLine target ∧ lf ∉ frame.requestLine target := by
  have hmethod : cr ∉ frame.method.spelling ∧ lf ∉ frame.method.spelling := by
    cases frame.method <;> decide
  simp only [requestLine,List.mem_append,List.mem_cons,not_or]
  exact ⟨⟨hmethod.1,by decide,h.1,by decide,frame.versionLine.1⟩,
    hmethod.2,by decide,h.2,by decide,frame.versionLine.2⟩

theorem lines_unbroken (frame : HeadFrame) {value : Bytes} (h : isValidHostAuthority value = true) :
    ∀ line ∈ frame.lines value, IsLine line := by
  intro line hline
  rw [lines,List.mem_append,List.mem_cons] at hline
  rcases hline with hbefore | rfl | hafter
  · exact frame.otherLines line (List.mem_append_left _ hbefore)
  · exact frame.host.line_unbroken h
  · exact frame.otherLines line (List.mem_append_right _ hafter)

theorem parseHeaderSection_eq (frame : HeadFrame) {limits : HttpRequestParserLimits} {target value : Bytes}
    (hfits : frame.Fits limits target value) (hvalue : isValidHostAuthority value = true) (tail : Bytes) :
    ∃ lineEnd, parseHeaderSection (frame.requestLine target ++ crlf ++ (frame.headerSection value ++ tail))
        ((frame.requestLine target).length + 2) limits =
      (parseLines limits (frame.lines value) ((frame.requestLine target).length + 2) {} >>= fun final =>
        finishHeaderSection ((frame.requestLine target).length + 2) lineEnd final >>= fun section_ =>
          .ok (some section_)) := by
  have hsize := hfits.headerSection
  simp only [headerSection,List.length_append,crlf,List.length_cons,List.length_nil] at hsize
  exact ⟨_,parseHeaderLines_eq le_rfl (drop_requestLine (frame.requestLine target) (frame.headerSection value ++ tail))
    (frame.lines_unbroken hvalue) (by omega)⟩

end HeadFrame

/-- Two heads that every consumer behind the parser takes for the same request. -/
def SameRequest (parsed parsed' : Option HttpRequestHead) : Prop :=
  ∃ head head', parsed = some head ∧ parsed' = some head' ∧ head.method = head'.method ∧
    head.target = head'.target ∧ head.fields = head'.fields ∧ head.contentLength = head'.contentLength ∧
    head.chunked = head'.chunked

theorem absoluteForm_same {limits : HttpRequestParserLimits} (frame : HeadFrame) {scheme authority path value : Bytes}
    (hscheme : asciiCaseInsensitiveEqual scheme (ascii "http") = true)
    (hauthority : isValidHostAuthority authority = true) (hpath : IsPathAndQuery path)
    (hline : cr ∉ path ∧ lf ∉ path) (hvalue : isValidHostAuthority value = true)
    (hfits : frame.Fits limits (scheme ++ ascii "://" ++ (authority ++ path)) value)
    (hfits' : frame.Fits limits (originForm path) authority) (tail : Bytes) :
    SameOutcome SameRequest
      (parseHttpRequestHead (frame.text (scheme ++ ascii "://" ++ (authority ++ path)) value ++ tail) limits)
      (parseHttpRequestHead (frame.text (originForm path) authority ++ tail) limits) := by
  have htext := isValidHostAuthority_text hauthority
  have htarget : cr ∉ scheme ++ ascii "://" ++ (authority ++ path) ∧
      lf ∉ scheme ++ ascii "://" ++ (authority ++ path) := by
    obtain ⟨hcr,hlf,-⟩ := htext.unbroken
    obtain ⟨a,b,c,d,rfl,ha,hb,hc,hd⟩ := scheme_cases hscheme
    have hfront : cr ∉ [a,b,c,d] ++ ascii "://" ∧ lf ∉ [a,b,c,d] ++ ascii "://" := by
      rcases ha with rfl | rfl <;> rcases hb with rfl | rfl <;> rcases hc with rfl | rfl <;>
        rcases hd with rfl | rfl <;> decide
    simp only [List.mem_append,not_or] at hfront ⊢
    exact ⟨⟨hfront.1,hcr,hline.1⟩,hfront.2,hlf,hline.2⟩
  have horigin : cr ∉ originForm path ∧ lf ∉ originForm path := by
    unfold originForm
    split
    · exact hline
    · simp only [List.mem_cons,not_or]
      exact ⟨⟨by decide,hline.1⟩,by decide,hline.2⟩
  obtain ⟨lineEnd,hsection⟩ := frame.parseHeaderSection_eq hfits hvalue tail
  obtain ⟨lineEnd',hsection'⟩ := frame.parseHeaderSection_eq hfits' hauthority tail
  have hsplit (target value : Bytes) : frame.text target value ++ tail =
      frame.requestLine target ++ crlf ++ (frame.headerSection value ++ tail) := by
    rw [HeadFrame.text,List.append_assoc]
  rw [hsplit,hsplit,parseHttpRequestHead_line (frame.requestLine_unbroken htarget) hfits.requestLine,
    parseHttpRequestHead_line (frame.requestLine_unbroken horigin) hfits'.requestLine,hsection,hsection']
  refine (parseRequestLine_same hscheme hauthority hpath frame.method frame.version).bind
    ?_
  rintro p p' ⟨hmethod,hrouting,hnone⟩
  refine SameOutcome.bind (R := fun x y => ∃ t t' : ParsedHeaderSection, x = some t ∧ y = some t' ∧
    t'.headers = overrideHost authority t.headers ∧ t'.bodySize = t.bodySize ∧ t'.chunked = t.chunked) ?_ ?_
  · apply (frame.host.parseLines_along hvalue hauthority frame.before frame.after _ _).bind
    intro s s' hs
    exact (finishHeaderSection_alike hs.toAlike _ _ lineEnd lineEnd').bind
      fun t t' ht => .ok ⟨t,t',rfl,rfl,ht⟩
  · rintro x y ⟨t,t',rfl,rfl,hheaders,hbody,hchunked⟩
    refine .ok ⟨_,_,rfl,rfl,hmethod,?_,?_,hbody.symm,hchunked.symm⟩
    · rw [hrouting]
    · dsimp only
      rw [hrouting,hnone,overrideHost,overrideHost,if_pos rfl,if_neg htext.nonempty,hheaders,overrideHost,
        if_neg htext.nonempty]

def WellEscaped (target : Bytes) : Prop :=
  ∀ i, target[i]? = some (char '%') → ∃ high low, target[i + 1]? = some high ∧ target[i + 2]? = some low ∧
    isAsciiHexadecimalDigit high = true ∧ isAsciiHexadecimalDigit low = true

theorem TargetBytes.wellEscaped {target : Bytes} (h : TargetBytes target) : WellEscaped target := by
  induction h with
  | nil => simp [WellEscaped]
  | @character b rest hb _ ih =>
    rintro (_ | i) hi
    · obtain rfl := Option.some.inj hi
      exact absurd hb (by decide)
    · exact ih i hi
  | @escape high low rest hhigh hlow _ ih =>
    rintro (_ | _ | _ | i) hi
    · exact ⟨high,low,rfl,rfl,hhigh,hlow⟩
    · obtain rfl := Option.some.inj hi
      exact absurd hhigh (by decide)
    · obtain rfl := Option.some.inj hi
      exact absurd hlow (by decide)
    · exact ih i hi

structure RoutingTarget (method : HttpMethod) (target : Bytes) : Prop where
  form : (target = [char '*'] ∧ method = .options) ∨ target.head? = some (char '/')
  escapes : WellEscaped target
  fragment : char '#' ∉ target
  reparses : ∀ offset, parseRequestTarget target method offset = .ok ⟨target,[]⟩

theorem ValidTarget.routing {method : HttpMethod} {target routing authority : Bytes}
    (h : ValidTarget method target routing authority) : RoutingTarget method routing := by
  have hslash {rest : Bytes} (hrest : TargetBytes rest) : RoutingTarget method (char '/' :: rest) := by
    have hbytes := targetBytes_slash_iff.mpr hrest
    exact ⟨Or.inr rfl,hbytes.wellEscaped,hbytes.not_mem (by decide) (by decide) (by decide),
      fun offset => parseRequestTarget_eq_ok_iff.mpr (.origin method hrest)⟩
  cases h with
  | asterisk =>
    refine ⟨Or.inl ⟨rfl,rfl⟩,?_,by decide,fun offset => parseRequestTarget_eq_ok_iff.mpr .asterisk⟩
    rintro (_ | i) hi
    · exact absurd (Option.some.inj hi) (by decide)
    · cases hi
  | origin _ hrest => exact hslash hrest
  | @absolute _ _ _ path _ _ _ hp ht =>
    split
    · rename_i hhead
      cases path with
      | nil => cases hhead
      | cons b rest =>
        obtain rfl := Option.some.inj hhead
        exact hslash (targetBytes_slash_iff.mp ht)
    · exact hslash ht

/-- The two spellings of a request are indistinguishable behind the parser, and the target of every
accepted head is in origin-form or the asterisk. -/
theorem absoluteForm_equivalent (limits : HttpRequestParserLimits) :
    (∀ (frame : HeadFrame) (scheme authority path value tail : Bytes),
      asciiCaseInsensitiveEqual scheme (ascii "http") = true → isValidHostAuthority authority = true →
      IsPathAndQuery path → cr ∉ path ∧ lf ∉ path → isValidHostAuthority value = true →
      frame.Fits limits (scheme ++ ascii "://" ++ (authority ++ path)) value →
      frame.Fits limits (originForm path) authority →
      SameOutcome SameRequest
        (parseHttpRequestHead (frame.text (scheme ++ ascii "://" ++ (authority ++ path)) value ++ tail) limits)
        (parseHttpRequestHead (frame.text (originForm path) authority ++ tail) limits)) ∧
    ∀ (input : Bytes) (head : HttpRequestHead), parseHttpRequestHead input limits = .ok (some head) →
      RoutingTarget head.method head.target := by
  refine ⟨fun frame scheme authority path value tail hscheme hauthority hpath hline hvalue hfits hfits' =>
    absoluteForm_same frame hscheme hauthority hpath hline hvalue hfits hfits' tail,?_⟩
  intro input head h
  obtain ⟨t,ht,-,rfl⟩ := parseHttpRequestHead_sound h
  exact ht.target.routing
/-- The authority of the target takes the place of the Host value, whatever that was. -/
theorem absoluteForm_equivalent_query :
    SameOutcome SameRequest
      (parseHttpRequestHead (ascii "GET HTTP://h?q HTTP/1.1\r\nhost: other\r\nX: 1\r\n\r\n") {})
      (parseHttpRequestHead (ascii "GET /?q HTTP/1.1\r\nhost: h\r\nX: 1\r\n\r\n") {}) := by
  obtain ⟨hsame,-⟩ := absoluteForm_equivalent {}
  have h := hsame ⟨.get,ascii "HTTP/1.1",[],⟨ascii "host",[space],[],by decide,by decide,by decide⟩,[ascii "X: 1"],
      by decide,by simp [IsLine]; decide⟩
    (ascii "HTTP") (ascii "h") (ascii "?q") (ascii "other") [] (by decide) (by decide +kernel)
    (Or.inr (Or.inl (by decide))) (by decide) (by decide +kernel) ⟨by decide,by decide⟩ ⟨by decide,by decide⟩
  exact h

end SpareNode.Http
