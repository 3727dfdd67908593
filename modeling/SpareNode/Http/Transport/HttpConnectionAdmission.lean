import SpareNode.Http.Transport.ConnectionHandler

/-! # Admission of HTTP connections

The dispatcher is told a byte bound and a marker; the parser has its own limits and its own
way to an empty line. The two agree: what admission takes for a complete head the parser
decides, and what fills admission's buffer without the marker never becomes a head.
-/
namespace SpareNode.Http
open Network

def makeHttpConnectionAdmission (config : HttpConnectionHandlerConfig) : ConnectionAdmissionOptions where
  maxPrefixBytes := maximumHttpRequestHeadBytes config.parserLimits
  completionMarker := ascii "\r\n\r\n"
  inactivityTimeout := config.timeouts.headers
  totalTimeout := config.timeouts.total

theorem makeHttpConnectionAdmission_default : makeHttpConnectionAdmission {} = serverAdmission := rfl

variable {limits : HttpRequestParserLimits} {input : Bytes}

theorem completionMarker_eq (config : HttpConnectionHandlerConfig) :
    (makeHttpConnectionAdmission config).completionMarker = headMarker := rfl

/-- An input with an empty line is decided, whatever follows. -/
theorem parseHttpRequestHead_marked (h : headMarker <:+: input) (more : Bytes) :
    parseHttpRequestHead (input ++ more) limits ≠ .ok none := by
  intro hnone
  exact (parseHttpRequestHead_none hnone).1 (h.trans (List.prefix_append input more).isInfix)

/-- An input without an empty line that fills the bound never becomes a head. -/
theorem parseHttpRequestHead_unmarked (h : ¬headMarker <:+: input)
    (hfull : input.length = limits.maxRequestLineBytes + 2 + limits.maxHeaderBytes) (more : Bytes)
    (head : HttpRequestHead) : parseHttpRequestHead (input ++ more) limits ≠ .ok (some head) := by
  intro hparse
  obtain ⟨-,hbound,hends,-⟩ := parseHttpRequestHead_consumed hparse
  have hinside : (input ++ more).take head.consumedBytes = input.take head.consumedBytes :=
    List.take_append_of_le_length (by omega)
  rw [hinside] at hends
  exact h (hends.isInfix.trans (List.take_prefix _ input).isInfix)

/-- The bound and the marker of admission fit the parser, in every input and every run. -/
theorem http_admission_agrees (config : HttpConnectionHandlerConfig)
    (hbound : maximumHttpRequestHeadBytes config.parserLimits ≠ 0) :
    (∀ input, parseHttpRequestHead input config.parserLimits = .ok none →
      ¬headMarker <:+: input ∧ input.length ≤ maximumHttpRequestHeadBytes config.parserLimits ∧
      (input.length = maximumHttpRequestHeadBytes config.parserLimits →
        ∀ more, more ≠ [] → ∃ e, parseHttpRequestHead (input ++ more) config.parserLimits = .error e)) ∧
    (∀ input head, parseHttpRequestHead input config.parserLimits = .ok (some head) →
      head.consumedBytes ≤ maximumHttpRequestHeadBytes config.parserLimits ∧
      FirstMarkerEnds input head.consumedBytes) ∧
    (∀ connection reason promoted,
      Admitted (makeHttpConnectionAdmission config) connection (.promoted reason promoted) →
      (reason = .markerFound → ∀ more,
        parseHttpRequestHead (promoted.prefetched ++ more) config.parserLimits ≠ .ok none) ∧
      (reason = .prefixFull → ¬headMarker <:+: promoted.prefetched → ∀ more head,
        parseHttpRequestHead (promoted.prefetched ++ more) config.parserLimits ≠ .ok (some head))) := by
  have hsize := maximumHttpRequestHeadBytes_eq hbound
  refine ⟨?_,?_,?_⟩
  · intro input hnone
    obtain ⟨hmarker,hlength⟩ := parseHttpRequestHead_none hnone
    rw [hsize]
    exact ⟨hmarker,hlength,fun hfull more hmore => parseHttpRequestHead_full hnone hfull hmore⟩
  · intro input head hhead
    rw [hsize]
    exact ⟨(parseHttpRequestHead_consumed hhead).2.1,parseHttpRequestHead_first hhead⟩
  · intro connection reason promoted hrun
    have hsound := admitted_sound (Nat.pos_of_ne_zero hbound) (by simp [completionMarker_eq,headMarker,crlf]) hrun
    refine ⟨?_,?_⟩
    · intro hreason more
      exact parseHttpRequestHead_marked (hsound.marked hreason) more
    · intro hreason hunmarked more head
      refine parseHttpRequestHead_unmarked hunmarked ?_ more head
      rw [hsound.full hreason,← hsize]
      rfl

def tightConfig : HttpConnectionHandlerConfig where
  parserLimits := { maxRequestLineBytes := 14, maxHeaderBytes := 11 }

theorem http_admission_agrees_tight :
    (∃ e, parseHttpRequestHead (ascii "GET / HTTP/1.1\r\nHost: h\r\nX:" ++ ascii "1")
      tightConfig.parserLimits = .error e) ∧
    FirstMarkerEnds (ascii "GET / HTTP/1.1\r\nHost: h\r\n\r\nrest") 27 :=
  ⟨((http_admission_agrees tightConfig (by decide)).1
      (ascii "GET / HTTP/1.1\r\nHost: h\r\nX:") (by decide +kernel)).2.2 (by decide) _ (by decide),
    ((http_admission_agrees tightConfig (by decide)).2.1
      (ascii "GET / HTTP/1.1\r\nHost: h\r\n\r\nrest")
      ⟨.get,ascii "/",[⟨ascii "Host",ascii "h"⟩],27,0,false⟩ (by decide +kernel)).2⟩

end SpareNode.Http
