import SpareNode.Http.Request.RequestParser
import SpareNode.Library.Incremental

/-! # Verdicts are stable under more input

The line scanners look one byte ahead, and a line is validated only once its
terminator is there. So what the parsers say on an input they also say on every
extension of it, unless they asked for more.
-/
namespace SpareNode.Http
open Incremental Transducer HttpBodyDecoder

theorem findRequestLineEndFrom_stable (maximum index : ℕ) :
    Stable (findRequestLineEndFrom maximum index) := by
  intro p q h
  fun_induction findRequestLineEndFrom maximum index p <;>
    (rw [findRequestLineEndFrom.eq_def]; grind)

theorem findHeaderLineEndFrom_stable (headerStart maximum index : ℕ) :
    Stable (findHeaderLineEndFrom headerStart maximum index) := by
  intro p q h
  fun_induction findHeaderLineEndFrom headerStart maximum index p <;>
    (rw [findHeaderLineEndFrom.eq_def]; grind)

theorem findHeaderLineEnd_stable (lineStart headerStart maximum : ℕ) :
    Stable (fun input => findHeaderLineEnd input lineStart headerStart maximum) := by
  intro p q h
  simp only [findHeaderLineEnd,List.drop_append] at h ⊢
  exact findHeaderLineEndFrom_stable headerStart maximum lineStart _ _ h

theorem findRequestLineEndFrom_bounds {maximum index stop : ℕ} {rest : Bytes}
    (h : findRequestLineEndFrom maximum index rest = .ok (some stop)) :
    index ≤ stop ∧ stop + 2 ≤ index + rest.length := by
  fun_induction findRequestLineEndFrom maximum index rest <;> grind

theorem findHeaderLineEnd_bounds {input : Bytes} {lineStart headerStart maximum stop : ℕ}
    (h : findHeaderLineEnd input lineStart headerStart maximum = .ok (some stop)) :
    lineStart ≤ stop ∧ stop + 2 ≤ input.length := by
  have hb := findHeaderLineEndFrom_bounds h
  simp only [List.length_drop] at hb
  omega

theorem substr_append {p : Bytes} (q : Bytes) {pos count : ℕ} (h : pos + count ≤ p.length) :
    substr (p ++ q) pos count = substr p pos count := by
  rw [substr,substr,List.drop_append_of_le_length (by omega),
    List.take_append_of_le_length (by simp only [List.length_drop]; omega)]

theorem parseHeaderLines_stable (headerStart : ℕ) (limits : HttpRequestParserLimits)
    (lineStart : ℕ) (state : HeaderParseState) :
    Stable (fun input => parseHeaderLines input headerStart limits lineStart state) := by
  intro p q h
  change parseHeaderLines p headerStart limits lineStart state ≠ .ok none at h
  change parseHeaderLines (p ++ q) headerStart limits lineStart state =
    parseHeaderLines p headerStart limits lineStart state
  have hscan (start : ℕ) {r : Except HttpRequestParseError (Option ℕ)} (hr : r ≠ .ok none)
      (hp : findHeaderLineEnd p start headerStart limits.maxHeaderBytes = r) :
      findHeaderLineEnd (p ++ q) start headerStart limits.maxHeaderBytes = r :=
    (findHeaderLineEnd_stable start headerStart _ p q (by simpa [hp] using hr)).trans hp
  fun_induction parseHeaderLines p headerStart limits lineStart state with
  | case1 lineStart state e he =>
    rw [parseHeaderLines.eq_def,hscan lineStart (by simp) he]
  | case2 => exact absurd rfl h
  | case3 state lineEnd he =>
    rw [parseHeaderLines.eq_def,hscan lineEnd (by simp) he]
    simp
  | case4 lineStart state lineEnd he hne e hp =>
    have hb := findHeaderLineEnd_bounds he
    rw [parseHeaderLines.eq_def,hscan lineStart (by simp) he]
    simp only [if_neg hne]
    rw [substr_append q (by omega),hp]
  | case5 lineStart state lineEnd he hne state' hp ih =>
    have hb := findHeaderLineEnd_bounds he
    rw [parseHeaderLines.eq_def,hscan lineStart (by simp) he]
    simp only [if_neg hne]
    rw [substr_append q (by omega),hp]
    exact ih h

/-- What follows the request line once its end is known. -/
def parseFromLineEnd (limits : HttpRequestParserLimits) (requestLineEnd : ℕ) (input : Bytes) :
    Except HttpRequestParseError (Option HttpRequestHead) :=
  match parseRequestLine (input.take requestLineEnd) with
  | .error e => .error e
  | .ok (method,target) =>
    chain (fun input => parseHeaderSection input (requestLineEnd + 2) limits)
      (fun section_ _ => .ok (some ⟨method,target.routingTarget,
        overrideHost target.authority section_.headers,section_.bodyStart,section_.bodySize,
        section_.chunked⟩)) input

theorem parseHttpRequestHead_eq_chain (limits : HttpRequestParserLimits) (input : Bytes) :
    parseHttpRequestHead input limits =
      chain (fun input => findRequestLineEnd input limits.maxRequestLineBytes)
        (parseFromLineEnd limits) input := by
  unfold parseHttpRequestHead chain
  split
  · next hi =>
    subst hi
    rfl
  · unfold parseFromLineEnd chain
    dsimp only
    rcases findRequestLineEnd input limits.maxRequestLineBytes with e | _ | requestLineEnd
    · rfl
    · rfl
    · dsimp only
      rcases parseRequestLine (input.take requestLineEnd) with e | ⟨method,target⟩
      · rfl
      · dsimp only
        rcases parseHeaderSection input (requestLineEnd + 2) limits with e | _ | section_ <;> rfl

theorem parseHttpRequestHead_stable (limits : HttpRequestParserLimits) :
    Stable (fun input => parseHttpRequestHead input limits) := by
  simp only [parseHttpRequestHead_eq_chain]
  apply Stable.chain (findRequestLineEndFrom_stable _ 0)
  intro requestLineEnd p q hp h
  have hb := findRequestLineEndFrom_bounds hp
  unfold parseFromLineEnd at h ⊢
  rw [List.take_append_of_le_length (by omega)]
  cases hl : parseRequestLine (p.take requestLineEnd) with
  | error e => rfl
  | ok line =>
    rw [hl] at h
    exact Stable.chain (parseHeaderLines_stable _ limits _ {}) (fun _ _ _ _ _ => rfl) p q h

/-- What one run of the byte machine says about a body: its size on the wire and its
payload, once it is complete. -/
def bodyVerdict (head : HttpRequestHead) (limits : HttpRequestParserLimits) (wire : Bytes) :
    Except HttpRequestParseError (Option (ℕ × Bytes)) :=
  let r := machine.run (create head limits) wire
  match r.1.failure with
  | some e => .error e
  | none => if r.1.complete then .ok (some (wire.length - r.2.1.length,r.2.2)) else .ok none

theorem bodyVerdict_stable (head : HttpRequestHead) (limits : HttpRequestParserLimits) :
    Stable (bodyVerdict head limits) := by
  intro p q h
  have hhalt : machine.halted (machine.run (create head limits) p).1 = true := by
    by_contra hn
    obtain ⟨hp,hf⟩ := reading_iff.mp (by simpa using hn)
    simp [bodyVerdict,hf,complete,hp] at h
  simp only [bodyVerdict,run_append_of_halted q hhalt,List.length_append]
  have hsub : p.length + q.length - ((machine.run (create head limits) p).2.1.length + q.length) =
      p.length - (machine.run (create head limits) p).2.1.length := by omega
  rw [hsub]

/-- The decoding loop computes the run of the byte machine. -/
theorem decodeChunked_eq {d : HttpBodyDecoder} (pending : Bytes) (consumed : ℕ) (storage : Bytes)
    (hd : WellFormed d) (hf : d.failure = none) :
    decodeChunked d pending consumed storage =
      match (machine.run d pending).1.failure with
      | some e => .error e
      | none => .ok ((machine.run d pending).1,
          consumed + (pending.length - (machine.run d pending).2.1.length),
          storage ++ (machine.run d pending).2.2) := by
  fun_induction decodeChunked d pending consumed storage with
  | case1 d pending consumed storage hloop d' e hfeed =>
    obtain ⟨hrun,he⟩ := feed_error_run hd hf hfeed
    simp only [hrun,he]
  | case2 d pending consumed storage hloop d' p hfeed ih =>
    obtain ⟨u,v,rfl,hc,hr,-,hf',-⟩ := feed_ok hd hfeed
    have hdrop : (u ++ v).drop p.consumed = v := by rw [hc,List.drop_left]
    have hlen : (machine.run d' v).2.1.length ≤ v.length := by
      obtain ⟨w,hw,-⟩ := run_reads (T := machine) d' v
      have hlen := congrArg List.length hw
      rw [List.length_append] at hlen
      omega
    rw [ih (reads_wellFormed hr hd) hf',hdrop,hr.run_append v]
    dsimp only
    rw [hc,List.length_append,List.append_assoc,Nat.add_assoc,Nat.add_sub_assoc hlen]
  | case3 d pending consumed storage hloop =>
    have hstop : machine.halted d = true ∨ pending = [] := by
      by_cases hp : pending = []
      · exact Or.inr hp
      · have hc : d.complete = true := by simpa [hp] using hloop
        exact Or.inl (halted_iff.mpr (Or.inl (complete_iff.mp hc).1))
    have hrun := (Reads.nil (T := machine) d).run_eq hstop
    rw [List.nil_append] at hrun
    rw [hrun]
    simp [hf]

/-- The body of a validated head, on the whole input. -/
def scanBody (limits : HttpRequestParserLimits) (head : HttpRequestHead) (input : Bytes) :
    Except HttpRequestParseError (Option (ℕ × HttpRequestView)) :=
  if head.chunked = false then
    if input.length - head.consumedBytes < head.contentLength then .ok none
    else .ok (some (head.consumedBytes + head.contentLength,
      head.view (substr input head.consumedBytes head.contentLength)))
  else
    (bodyVerdict head limits (input.drop head.consumedBytes)).map
      (Option.map (fun r => (head.consumedBytes + r.1,head.view r.2)))

theorem scanBody_stable (limits : HttpRequestParserLimits) (head : HttpRequestHead) :
    Stable (scanBody limits head) := by
  intro p q h
  unfold scanBody at h ⊢
  split
  · next hc =>
    simp only [hc,↓reduceIte] at h
    split at h
    · exact absurd rfl h
    · next hlen =>
      rw [if_neg (by simp only [List.length_append]; omega),if_neg hlen]
      by_cases hz : head.contentLength = 0
      · simp [hz,substr]
      · rw [substr_append q (by omega)]
  · next hc =>
    rw [if_neg hc] at h
    rw [List.drop_append,bodyVerdict_stable head limits]
    intro hv
    rw [hv] at h
    exact h rfl

/-- The result of a scan as the parser reports it. -/
def HttpRequestParseResult.ofOption : Option (ℕ × HttpRequestView) → HttpRequestParseResult
  | none => .incomplete
  | some (consumed,request) => .complete consumed request

theorem parseHttpRequest_eq_chain (limits : HttpRequestParserLimits) (input : Bytes) :
    parseHttpRequest input limits =
      (chain (fun input => parseHttpRequestHead input limits) (scanBody limits) input).map
        HttpRequestParseResult.ofOption := by
  unfold parseHttpRequest chain
  dsimp only
  rcases parseHttpRequestHead input limits with e | _ | head
  · rfl
  · rfl
  · dsimp only [scanBody]
    split
    · split <;> rfl
    · next hc =>
      have hf : (create head limits).failure = none := by simp [create,hc]
      rw [decodeChunked_eq _ _ _ (create_wellFormed head limits) hf]
      dsimp only [bodyVerdict]
      rcases (machine.run (create head limits) (input.drop head.consumedBytes)).1.failure with _ | e
      · dsimp only
        cases (machine.run (create head limits) (input.drop head.consumedBytes)).1.complete <;> rfl
      · rfl

theorem parseHttpRequest_stable (limits : HttpRequestParserLimits) (p q : Bytes)
    (h : parseHttpRequest p limits ≠ .ok .incomplete) :
    parseHttpRequest (p ++ q) limits = parseHttpRequest p limits := by
  rw [parseHttpRequest_eq_chain] at h
  rw [parseHttpRequest_eq_chain,parseHttpRequest_eq_chain,
    Stable.chain (parseHttpRequestHead_stable limits)
      (fun head p q _ => scanBody_stable limits head p q) p q]
  intro hn
  rw [hn] at h
  exact h rfl

/-- What either parser says about an input, it says about every extension: an error
keeps its code and offset, a complete head or request keeps all it reports. More
bytes can only end a request for more. -/
theorem parse_verdicts_stable (limits : HttpRequestParserLimits) (p q : Bytes) :
    (∀ e, parseHttpRequestHead p limits = .error e →
      parseHttpRequestHead (p ++ q) limits = .error e) ∧
    (∀ head, parseHttpRequestHead p limits = .ok (some head) →
      parseHttpRequestHead (p ++ q) limits = .ok (some head)) ∧
    (∀ e, parseHttpRequest p limits = .error e → parseHttpRequest (p ++ q) limits = .error e) ∧
    (∀ consumed request, parseHttpRequest p limits = .ok (.complete consumed request) →
      parseHttpRequest (p ++ q) limits = .ok (.complete consumed request)) ∧
    (parseHttpRequestHead (p ++ q) limits = .ok none → parseHttpRequestHead p limits = .ok none) ∧
    (parseHttpRequest (p ++ q) limits = .ok .incomplete →
      parseHttpRequest p limits = .ok .incomplete) := by
  have hhead := parseHttpRequestHead_stable limits p q
  have hall := parseHttpRequest_stable limits p q
  refine ⟨?_,?_,?_,?_,
    (parseHttpRequestHead_stable limits).pending,?_⟩
  · intro e h
    exact (hhead (by simp [h])).trans h
  · intro head h
    exact (hhead (by simp [h])).trans h
  · intro e h
    exact (hall (by simp [h])).trans h
  · intro consumed request h
    exact (hall (by simp [h])).trans h
  · intro h
    by_contra hp
    exact hp ((hall hp).symm.trans h)

/-- A bare LF stays the same error, and pipelined bytes leave a complete request alone. -/
theorem parse_verdicts_stable_pipelined :
    parseHttpRequestHead (ascii "\nGET" ++ ascii " / HTTP/1.1\r\n") {} =
      .error ⟨.invalidLineEnding,0⟩ ∧
    parseHttpRequest (ascii "GET / HTTP/1.1\r\nHost: h\r\n\r\n" ++ ascii "GET /next") {} =
      .ok (.complete 27 ⟨.get,ascii "/",[⟨ascii "Host",ascii "h"⟩],[]⟩) :=
  ⟨(parse_verdicts_stable {} _ _).1 _ (by decide +kernel),
    (parse_verdicts_stable {} _ _).2.2.2.1 _ _ (by decide +kernel)⟩

end SpareNode.Http
