import SpareNode.Http.Transport.ResponseTransmission

/-! # Body sources with a state

A reader that keeps a state between its calls, such as a position in a file. The writer asks for what is left
of the body, up to its buffer, so that the state before a call follows from the calls before it. What a
transmission reports are the answers of the source, one state after the other.
-/
namespace SpareNode.Http.Transmission
variable {σ : Type}

/-- What the call with a running number does from a state, for a span of some length. -/
abbrev BodySource (σ : Type) := ℕ → σ → ℕ → BodyRead × σ

def producedBytes : BodyRead → Bytes
  | .produced bytes => bytes
  | _ => []

/-- The state before a call, and what is left of the body by then. -/
def stateBefore (source : BodySource σ) (start : σ) (contentLength : ℕ) : (call : ℕ) → σ × ℕ
  | 0 => (start,contentLength)
  | call + 1 =>
    let (state,remaining) := stateBefore source start contentLength call
    let (read,state) := source call state (min remaining streamBufferSize)
    (state,remaining - (producedBytes read).length)

/-- The reader of a response whose body comes from a source. -/
def sourceReader (source : BodySource σ) (start : σ) (contentLength : ℕ) : HttpBodyReader := fun call requested =>
  (source call (stateBefore source start contentLength call).1 requested).1

/-- The reports are what a source answers, call by call, from a state. -/
def Served (source : BodySource σ) : (call : ℕ) → σ → List (ℕ × BodyRead) → Prop
  | _,_,[] => True
  | call,state,(requested,read) :: more =>
    (source call state requested).1 = read ∧ Served source (call + 1) (source call state requested).2 more

variable {connection : Connection} {source : BodySource σ} {start : σ} {contentLength : ℕ}

theorem stateBefore_succ {call remaining : ℕ} {state next : σ} {read : BodyRead}
    (h : stateBefore source start contentLength call = (state,remaining))
    (hread : source call state (min remaining streamBufferSize) = (read,next)) :
    stateBefore source start contentLength (call + 1) = (next,remaining - (producedBytes read).length) := by
  rw [stateBefore,h]
  dsimp only
  rw [hread]

theorem served_once (call requested : ℕ) : Served source call (stateBefore source start contentLength call).1
    [(requested,sourceReader source start contentLength call requested)] := ⟨rfl,trivial⟩

theorem writeStreamingBody_served {reader : HttpBodyReader} (hreader : reader = sourceReader source start contentLength)
    {rounds : ℕ} {p after : Progress} {remaining : ℕ} {outcome : Outcome}
    (hleft : (stateBefore source start contentLength p.reports.length).2 = remaining)
    (h : writeStreamingBody connection reader rounds p remaining = some (after,outcome)) :
    ∃ more, after.reports = p.reports ++ more ∧
      Served source p.reports.length (stateBefore source start contentLength p.reports.length).1 more := by
  fun_induction writeStreamingBody connection reader rounds p remaining with
  | case1 rounds p =>
    obtain ⟨rfl,rfl⟩ := Prod.mk.inj (Option.some.inj h)
    exact ⟨[],(List.append_nil _).symm,trivial⟩
  | case2 => cases h
  | case3 p remaining hremaining rounds requested produced p' hproduced =>
    obtain ⟨rfl,rfl⟩ := Prod.mk.inj (Option.some.inj h)
    subst hreader
    exact ⟨[(requested,produced)],rfl,served_once _ _⟩
  | case4 p remaining hremaining rounds requested produced p' e hproduced =>
    obtain ⟨rfl,rfl⟩ := Prod.mk.inj (Option.some.inj h)
    subst hreader
    exact ⟨[(requested,produced)],rfl,served_once _ _⟩
  | case5 p remaining hremaining rounds requested produced p' bytes hproduced hover =>
    obtain ⟨rfl,rfl⟩ := Prod.mk.inj (Option.some.inj h)
    subst hreader
    exact ⟨[(requested,produced)],rfl,served_once _ _⟩
  | case6 p remaining hremaining rounds requested produced p' bytes hproduced hroom hempty =>
    obtain ⟨rfl,rfl⟩ := Prod.mk.inj (Option.some.inj h)
    subst hreader
    exact ⟨[(requested,produced)],rfl,served_once _ _⟩
  | case7 p remaining hremaining rounds requested produced p' bytes hproduced hroom hne middle hsend ih =>
    subst hreader
    have hreports : middle.reports = p.reports ++ [(requested,produced)] := (sendAll_sends hsend).reports
    have hcalls : middle.reports.length = p.reports.length + 1 := by
      rw [hreports,List.length_append,List.length_singleton]
    have hstate : stateBefore source start contentLength p.reports.length =
        ((stateBefore source start contentLength p.reports.length).1,remaining) := by
      rw [← hleft]
    have hnext := stateBefore_succ hstate
      (Prod.mk.eta (p := source p.reports.length (stateBefore source start contentLength p.reports.length).1 requested)).symm
    have hread : (source p.reports.length (stateBefore source start contentLength p.reports.length).1 requested).1 =
        .produced bytes := hproduced
    obtain ⟨more,hafter,hserved⟩ := ih (by rw [hcalls,hnext,hread]; rfl) h
    rw [hcalls,hnext] at hserved
    refine ⟨(requested,produced) :: more,?_,rfl,hserved⟩
    rw [hafter,hreports,List.append_assoc,List.singleton_append]
  | case8 p remaining hremaining rounds requested produced p' bytes hproduced hroom hne hstopped =>
    subst hreader
    exact ⟨[(requested,produced)],(sendAll_sends h).reports,served_once _ _⟩

/-- Whatever a transmission of a source's body does, its reports are the source's answers. -/
theorem writeHttpResponse_served {headFits : Bool} {rounds : ℕ} {response : HttpResponse} {requestMethod : HttpMethod}
    {final : Final} (hreader : response.bodyReader = some (sourceReader source start response.contentLength))
    (h : writeHttpResponse connection headFits rounds response requestMethod = some final) :
    Served source 0 start final.progress.reports := by
  obtain ⟨⟨after,outcome⟩,htransmit,rfl⟩ := Option.map_eq_some_iff.mp h
  unfold transmit at htransmit
  split at htransmit
  · obtain ⟨rfl,rfl⟩ := Prod.mk.inj (Option.some.inj htransmit)
    trivial
  · split at htransmit
    · rename_i middle hsend
      have hnone : middle.reports = [] := (sendAll_sends hsend).reports
      split at htransmit
      · obtain ⟨rfl,rfl⟩ := Prod.mk.inj (Option.some.inj htransmit)
        dsimp only
        rw [hnone]
        trivial
      · rw [hreader] at htransmit
        have hleft : (stateBefore source start response.contentLength middle.reports.length).2 =
            response.contentLength := by rw [hnone]; rfl
        obtain ⟨more,hafter,hserved⟩ := writeStreamingBody_served rfl hleft htransmit
        rw [hnone] at hafter hserved
        dsimp only
        rw [hafter]
        exact hserved
    · dsimp only
      rw [(sendAll_sends htransmit).reports]
      trivial

/-- A connection that always takes some of the bytes. -/
def Accepting (connection : Connection) : Prop :=
  ∀ index bytes, bytes ≠ [] → ∃ count, connection index bytes = .sent count ∧ 0 < count ∧ count ≤ bytes.length

/-- A source that produces something as long as something of the body is left. -/
def Supplying (source : BodySource σ) (start : σ) (contentLength : ℕ) : Prop :=
  ∀ call state remaining, stateBefore source start contentLength call = (state,remaining) → remaining ≠ 0 →
    ∃ bytes, (source call state (min remaining streamBufferSize)).1 = .produced bytes ∧ bytes ≠ [] ∧
      bytes.length ≤ min remaining streamBufferSize

theorem sendAll_accepted (hconnection : Accepting connection) {rounds : ℕ} {p : Progress} {bytes : Bytes}
    (hrounds : bytes.length ≤ rounds) :
    ∃ after, sendAll connection rounds p bytes = some (after,.finished (.ok ())) := by
  fun_induction sendAll connection rounds p bytes with
  | case1 rounds p => exact ⟨p,rfl⟩
  | case2 => simp at hrounds
  | case3 rounds p b rest e he =>
    obtain ⟨count,hsent,-⟩ := hconnection p.sends (b :: rest) (List.cons_ne_nil _ _)
    rw [he] at hsent
    cases hsent
  | case4 rounds p b rest he =>
    obtain ⟨count,hsent,-⟩ := hconnection p.sends (b :: rest) (List.cons_ne_nil _ _)
    rw [he] at hsent
    cases hsent
  | case5 rounds p b rest he p' =>
    obtain ⟨count,hsent,hpos,-⟩ := hconnection p.sends (b :: rest) (List.cons_ne_nil _ _)
    rw [he] at hsent
    cases hsent
    omega
  | case6 rounds p b rest count he p' hzero hover =>
    obtain ⟨sent,hsent,-,hle⟩ := hconnection p.sends (b :: rest) (List.cons_ne_nil _ _)
    rw [he] at hsent
    cases hsent
    omega
  | case7 rounds p b rest count he p' hzero hover ih =>
    apply ih
    rw [List.length_drop]
    omega

theorem writeStreamingBody_supplied {reader : HttpBodyReader}
    (hreader : reader = sourceReader source start contentLength) (hconnection : Accepting connection)
    (hsource : Supplying source start contentLength) {rounds : ℕ} {p : Progress} {remaining : ℕ}
    (hleft : (stateBefore source start contentLength p.reports.length).2 = remaining) (hrounds : remaining ≤ rounds) :
    ∃ after, writeStreamingBody connection reader rounds p remaining = some (after,.finished (.ok ())) := by
  induction rounds generalizing p remaining with
  | zero =>
    refine ⟨p,?_⟩
    rw [writeStreamingBody,if_pos (Nat.le_zero.mp hrounds)]
  | succ rounds ih =>
    by_cases hdone : remaining = 0
    · refine ⟨p,?_⟩
      rw [writeStreamingBody,if_pos hdone]
    · have hstate : stateBefore source start contentLength p.reports.length =
          ((stateBefore source start contentLength p.reports.length).1,remaining) := by
        rw [← hleft]
      obtain ⟨bytes,hbytes,hne,hroom⟩ := hsource _ _ _ hstate hdone
      have hpositive : 0 < bytes.length := List.length_pos_iff.mpr hne
      have hle : bytes.length ≤ remaining := hroom.trans (Nat.min_le_left _ _)
      have hproduced : reader p.reports.length (min remaining streamBufferSize) = .produced bytes := by
        rw [hreader]
        exact hbytes
      have hnext := stateBefore_succ hstate (Prod.mk.eta (p := source p.reports.length
        (stateBefore source start contentLength p.reports.length).1 (min remaining streamBufferSize))).symm
      obtain ⟨middle,hsend⟩ := sendAll_accepted hconnection
        (p := { p with reports := p.reports ++ [(min remaining streamBufferSize,.produced bytes)] })
        (hle.trans hrounds)
      have hcalls : middle.reports.length = p.reports.length + 1 := by
        rw [(sendAll_sends hsend).reports,List.length_append,List.length_singleton]
      have hrest : (stateBefore source start contentLength middle.reports.length).2 = remaining - bytes.length := by
        rw [hcalls,hnext,hbytes]
        rfl
      obtain ⟨after,hafter⟩ := ih hrest (by omega)
      refine ⟨after,?_⟩
      rw [writeStreamingBody,if_neg hdone]
      dsimp only
      rw [hproduced]
      dsimp only
      rw [if_neg (Nat.not_lt.mpr hroom),if_neg (Nat.ne_of_gt hpositive),hsend]
      exact hafter

/-- A connection that takes everything and a source that supplies everything make the transmission succeed. -/
theorem writeHttpResponse_supplied {response : HttpResponse}
    (hreader : response.bodyReader = some (sourceReader source start response.contentLength))
    (hconnection : Accepting connection) (hsource : Supplying source start response.contentLength)
    (requestMethod : HttpMethod) : ∃ bound, ∀ rounds ≥ bound, ∃ final,
      writeHttpResponse connection true rounds response requestMethod = some final ∧
        final.outcome = .finished (.ok ()) := by
  refine ⟨(serializeHttpResponseHead response).length + response.contentLength,?_⟩
  intro rounds hrounds
  have hsent : ∃ middle, sendAll connection rounds {} (serializeHttpResponseHead response) =
      some (middle,.finished (.ok ())) := sendAll_accepted hconnection (by omega)
  obtain ⟨middle,hhead⟩ := hsent
  have hnone : middle.reports = [] := (sendAll_sends hhead).reports
  have htransmit : ∃ after, transmit connection true rounds response requestMethod =
      some (after,.finished (.ok ())) := by
    simp only [transmit,hhead,hreader]
    by_cases hmethod : requestMethod = .head
    · exact ⟨middle,if_pos hmethod⟩
    · rw [if_neg (by decide)]
      simp only [if_neg hmethod]
      exact writeStreamingBody_supplied rfl hconnection hsource (by rw [hnone]; rfl) (by omega)
  obtain ⟨after,hafter⟩ := htransmit
  exact ⟨_,Option.map_eq_some_iff.mpr ⟨_,hafter,rfl⟩,rfl⟩

end SpareNode.Http.Transmission
