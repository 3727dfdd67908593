import SpareNode.Http.Transport.RequestDeadlines
import SpareNode.Library.CheckedInt64

/-! # Request deadlines on the clock's own numbers

Durations and time points are 64-bit counts, and a sum, a difference or a conversion that does not
fit has no result. None ever fails to fit, and the deadlines are those over the integers.
-/
namespace SpareNode.Http
open Network CheckedInt64

/-- `HttpRequestTimeouts` in its counts of milliseconds. -/
structure TimeoutCounts where
  headers : Int64
  body : Int64
  total : Int64
deriving DecidableEq

/-- `checked_deadline`; where an operation overflows there is no outcome. -/
def countedDeadline (started timeout : Int64) : Option (Option Int64) :=
  if timeout ≤ 0 ∨ started < 0 then some none
  else do
    let remaining ← sub Int64.maxValue started
    if remaining / 1000000 < timeout then return none
    let converted ← mul timeout 1000000
    if converted ≤ 0 ∨ remaining < converted then return none
    let deadline ← add started converted
    return some deadline

/-- `RequestDeadlines` on 64-bit counts. -/
structure CountedDeadlines where
  timeouts : TimeoutCounts
  lastProgress : Int64
  total : Int64
deriving DecidableEq

namespace CountedDeadlines

/-- `RequestDeadlines::create`; a budget is only looked at when the ones before it are valid. -/
def create (timeouts : TimeoutCounts) (started : Int64) : Option (Option CountedDeadlines) := do
  match ← countedDeadline started timeouts.total with
  | none => return none
  | some total =>
    if (← countedDeadline started timeouts.headers).isNone then return none
    if (← countedDeadline started timeouts.body).isNone then return none
    return some ⟨timeouts,started,total⟩

def recordProgress (deadlines : CountedDeadlines) (receivedAt : Int64) : CountedDeadlines :=
  { deadlines with lastProgress := max deadlines.lastProgress receivedAt }

def next (deadlines : CountedDeadlines) (readingBody : Bool) : Option Int64 := do
  match ← countedDeadline deadlines.lastProgress
      (if readingBody then deadlines.timeouts.body else deadlines.timeouts.headers) with
  | some inactivity => return min inactivity deadlines.total
  | none => return deadlines.total

end CountedDeadlines

def TimeoutCounts.exact (timeouts : TimeoutCounts) : HttpRequestTimeouts :=
  ⟨timeouts.headers.toInt,timeouts.body.toInt,timeouts.total.toInt⟩

def CountedDeadlines.exact (deadlines : CountedDeadlines) : RequestDeadlines :=
  ⟨deadlines.timeouts.exact,deadlines.lastProgress.toInt,deadlines.total.toInt⟩

/-- No operation of `checked_deadline` overflows, and its outcome is the exact one. -/
theorem countedDeadline_exact (started timeout : Int64) :
    ∃ deadline, countedDeadline started timeout = some deadline ∧
      deadline.map Int64.toInt = checkedDeadline started.toInt timeout.toInt := by
  have hstart := started.toInt_lt
  have hmax := Int64.toInt_maxValue
  unfold countedDeadline checkedDeadline
  simp only [Int64.le_iff_toInt_le,Int64.lt_iff_toInt_lt,Int64.toInt_zero]
  split
  · exact ⟨none,rfl,rfl⟩
  · rename_i hvalid
    push Not at hvalid
    obtain ⟨remaining,hsub,hremaining⟩ := checked_of_bounds (clockMax - started.toInt)
      (by unfold clockMax; omega) (by unfold clockMax; omega)
    have hsub' : sub Int64.maxValue started = some remaining := by
      rw [sub,hmax]
      exact hsub
    have hdiv : (remaining / 1000000).toInt = (clockMax - started.toInt) / 1000000 := by
      rw [Int64.toInt_div_of_ne_right _ _ (by decide),hremaining,Int.tdiv_eq_ediv_of_nonneg (by unfold clockMax; omega)]
      rfl
    simp only [hsub',Option.bind_eq_bind,Option.bind_some,hdiv]
    split
    · exact ⟨none,rfl,rfl⟩
    · rename_i hfits
      have hproduct : milliseconds timeout.toInt ≤ clockMax - started.toInt := by
        unfold milliseconds
        omega
      obtain ⟨converted,hmul,hconverted⟩ := checked_of_bounds (milliseconds timeout.toInt)
        (by unfold milliseconds; omega) (by unfold clockMax at hproduct; omega)
      have hmul' : mul timeout 1000000 = some converted := hmul
      simp only [hmul',Option.bind_some,hconverted,hremaining]
      split
      · exact ⟨none,rfl,rfl⟩
      · obtain ⟨deadline,hadd,hdeadline⟩ := checked_of_bounds (started.toInt + milliseconds timeout.toInt)
          (by unfold milliseconds; omega) (by unfold clockMax at hproduct; omega)
        have hadd' : add started converted = some deadline := by
          rw [add,hconverted]
          exact hadd
        refine ⟨some deadline,?_,congrArg some hdeadline⟩
        rw [hadd']
        rfl

namespace CountedDeadlines

theorem create_exact (timeouts : TimeoutCounts) (started : Int64) :
    ∃ deadlines, create timeouts started = some deadlines ∧
      deadlines.map exact = RequestDeadlines.create timeouts.exact started.toInt := by
  obtain ⟨total,htotal,hexact⟩ := countedDeadline_exact started timeouts.total
  obtain ⟨headers,hheaders,hexact'⟩ := countedDeadline_exact started timeouts.headers
  obtain ⟨body,hbody,hexact''⟩ := countedDeadline_exact started timeouts.body
  unfold create RequestDeadlines.create TimeoutCounts.exact
  rw [← hexact,← hexact',← hexact'',htotal,hheaders,hbody]
  cases total with
  | none => exact ⟨none,rfl,rfl⟩
  | some total =>
    cases headers with
    | none => exact ⟨none,rfl,rfl⟩
    | some headers =>
      cases body with
      | none => exact ⟨none,rfl,rfl⟩
      | some body => exact ⟨_,rfl,rfl⟩

theorem recordProgress_exact (deadlines : CountedDeadlines) (receivedAt : Int64) :
    (deadlines.recordProgress receivedAt).exact = deadlines.exact.recordProgress receivedAt.toInt := by
  unfold recordProgress exact RequestDeadlines.recordProgress
  rw [toInt_max]

theorem progress_exact (deadlines : CountedDeadlines) (progress : List Int64) :
    (progress.foldl recordProgress deadlines).exact =
      (progress.map Int64.toInt).foldl RequestDeadlines.recordProgress deadlines.exact := by
  induction progress generalizing deadlines with
  | nil => rfl
  | cons receivedAt progress ih =>
    rw [List.foldl_cons,ih,recordProgress_exact]
    rfl

theorem next_exact (deadlines : CountedDeadlines) (readingBody : Bool) :
    ∃ deadline, deadlines.next readingBody = some deadline ∧ deadline.toInt = deadlines.exact.next readingBody := by
  obtain ⟨inactivity,hcounted,hexact⟩ := countedDeadline_exact deadlines.lastProgress
    (if readingBody then deadlines.timeouts.body else deadlines.timeouts.headers)
  have hbudget : (if readingBody then deadlines.timeouts.body else deadlines.timeouts.headers).toInt =
      if readingBody then deadlines.timeouts.exact.body else deadlines.timeouts.exact.headers := by
    cases readingBody <;> rfl
  rw [hbudget] at hexact
  unfold next RequestDeadlines.next exact
  rw [hcounted,← hexact]
  cases inactivity with
  | none => exact ⟨_,rfl,rfl⟩
  | some inactivity => exact ⟨_,rfl,toInt_min _ _⟩

end CountedDeadlines

theorem checkedDeadline_isSome {started timeout : ℤ} : (checkedDeadline started timeout).isSome = true ↔
    0 < timeout ∧ 0 ≤ started ∧ started + milliseconds timeout ≤ clockMax := by
  cases h : checkedDeadline started timeout with
  | none =>
    constructor
    · intro hsome
      cases hsome
    · rintro ⟨htimeout,hstarted,hfits⟩
      exact absurd (checkedDeadline_none h hstarted htimeout) (by omega)
  | some deadline =>
    obtain ⟨htimeout,hstarted,rfl,hfits⟩ := checkedDeadline_eq h
    exact ⟨fun _ => ⟨htimeout,hstarted,hfits⟩,fun _ => rfl⟩

namespace RequestDeadlines

/-- Deadlines are created for positive budgets that end before the clock does. -/
theorem create_isSome {timeouts : HttpRequestTimeouts} {started : ℤ} :
    (create timeouts started).isSome = true ↔ 0 ≤ started ∧ ∀ budget ∈ [timeouts.headers,timeouts.body,timeouts.total],
      0 < budget ∧ started + milliseconds budget ≤ clockMax := by
  have hcreate : (create timeouts started).isSome = ((checkedDeadline started timeouts.total).isSome &&
      (checkedDeadline started timeouts.headers).isSome && (checkedDeadline started timeouts.body).isSome) := by
    unfold create
    cases checkedDeadline started timeouts.total <;> cases checkedDeadline started timeouts.headers <;>
      cases checkedDeadline started timeouts.body <;> rfl
  rw [hcreate,Bool.and_eq_true,Bool.and_eq_true,checkedDeadline_isSome,checkedDeadline_isSome,checkedDeadline_isSome]
  simp only [List.forall_mem_cons,List.not_mem_nil,false_implies,implies_true,and_true]
  tauto

theorem foldl_recordProgress (deadlines : RequestDeadlines) (progress : List ℤ) :
    progress.foldl recordProgress deadlines =
      { deadlines with lastProgress := progress.foldl max deadlines.lastProgress } := by
  induction progress generalizing deadlines with
  | nil => rfl
  | cons receivedAt progress ih => exact ih (deadlines.recordProgress receivedAt)

/-- Where the inactivity deadline is no longer representable, the total one is earlier anyway. -/
theorem next_eq {deadlines : RequestDeadlines} {readingBody : Bool} (hprogress : 0 ≤ deadlines.lastProgress)
    (hheaders : 0 < deadlines.timeouts.headers) (hbody : 0 < deadlines.timeouts.body)
    (htotal : deadlines.total ≤ clockMax) : deadlines.next readingBody = min deadlines.total
      (deadlines.lastProgress + milliseconds
        (if readingBody then deadlines.timeouts.body else deadlines.timeouts.headers)) := by
  have hbudget : 0 < if readingBody then deadlines.timeouts.body else deadlines.timeouts.headers := by
    cases readingBody
    · exact hheaders
    · exact hbody
  unfold next
  split
  · rename_i inactivity hinactivity
    obtain ⟨-,-,rfl,-⟩ := checkedDeadline_eq hinactivity
    exact min_comm _ _
  · rename_i hinactivity
    have hlate := checkedDeadline_none hinactivity hprogress hbudget
    rw [min_eq_left (by omega)]

end RequestDeadlines

theorem le_foldl_max (start : ℤ) (times : List ℤ) : start ≤ times.foldl max start := by
  induction times generalizing start with
  | nil => exact le_rfl
  | cons time times ih => exact (le_max_left start time).trans (ih _)

/-- `create` overflows nowhere and succeeds for positive budgets whose end is representable;
`next` overflows nowhere and is the earlier of the total deadline and the phase's budget behind
the latest progress, which moves forward alone. -/
theorem request_deadlines_exact :
    (∀ (timeouts : TimeoutCounts) (started : Int64), ∃ created,
      CountedDeadlines.create timeouts started = some created ∧
      (created.isSome = true ↔ 0 ≤ started.toInt ∧
        ∀ budget ∈ [timeouts.headers,timeouts.body,timeouts.total],
          0 < budget.toInt ∧ started.toInt + budget.toInt * 1000000 ≤ Int64.maxValue.toInt)) ∧
    ∀ (timeouts : TimeoutCounts) (started : Int64) (deadlines : CountedDeadlines),
      CountedDeadlines.create timeouts started = some (some deadlines) →
      deadlines.total.toInt = started.toInt + timeouts.total.toInt * 1000000 ∧
      ∀ (progress later : List Int64) (readingBody : Bool), ∃ next next',
        (progress.foldl CountedDeadlines.recordProgress deadlines).next readingBody = some next ∧
        next.toInt = min deadlines.total.toInt ((progress.map Int64.toInt).foldl max started.toInt +
          (if readingBody then timeouts.body else timeouts.headers).toInt * 1000000) ∧
        next ≤ deadlines.total ∧
        ((progress ++ later).foldl CountedDeadlines.recordProgress deadlines).next readingBody = some next' ∧
        next ≤ next' := by
  refine ⟨?_,?_⟩
  · intro timeouts started
    obtain ⟨created,hcreated,hexact⟩ := CountedDeadlines.create_exact timeouts started
    refine ⟨created,hcreated,?_⟩
    have hsome : created.isSome = (RequestDeadlines.create timeouts.exact started.toInt).isSome := by
      rw [← hexact,Option.isSome_map]
    rw [hsome,RequestDeadlines.create_isSome,Int64.toInt_maxValue]
    simp only [TimeoutCounts.exact,List.forall_mem_cons,List.not_mem_nil,false_implies,implies_true,and_true]
    rfl
  · intro timeouts started deadlines hcreate
    obtain ⟨created,hcreated,hexact⟩ := CountedDeadlines.create_exact timeouts started
    obtain rfl : created = some deadlines := Option.some.inj (hcreated.symm.trans hcreate)
    obtain ⟨hstarted,-,hfits,heq⟩ := create_deadlines hexact.symm
    have hpositive := (RequestDeadlines.create_isSome.mp (Option.isSome_iff_exists.mpr ⟨_,hexact.symm⟩)).2
    have hheaders := (hpositive timeouts.exact.headers (by simp)).1
    have hbody := (hpositive timeouts.exact.body (by simp)).1
    have htotal : deadlines.total.toInt = started.toInt + milliseconds timeouts.total.toInt :=
      congrArg RequestDeadlines.total heq
    -- The state after any progress, and its deadline over the integers.
    have hnext (progress : List Int64) (readingBody : Bool) : ∃ next,
        (progress.foldl CountedDeadlines.recordProgress deadlines).next readingBody = some next ∧
        next.toInt = min deadlines.total.toInt ((progress.map Int64.toInt).foldl max started.toInt +
          (if readingBody then timeouts.body else timeouts.headers).toInt * 1000000) := by
      obtain ⟨next,hnext,hvalue⟩ := CountedDeadlines.next_exact
        (progress.foldl CountedDeadlines.recordProgress deadlines) readingBody
      refine ⟨next,hnext,?_⟩
      have hlast := le_foldl_max started.toInt (progress.map Int64.toInt)
      rw [hvalue,CountedDeadlines.progress_exact,heq,RequestDeadlines.foldl_recordProgress,
        RequestDeadlines.next_eq (hstarted.trans hlast) hheaders hbody hfits,htotal]
      cases readingBody <;> rfl
    refine ⟨htotal,?_⟩
    intro progress later readingBody
    obtain ⟨next,hfirst,hvalue⟩ := hnext progress readingBody
    obtain ⟨next',hsecond,hvalue'⟩ := hnext (progress ++ later) readingBody
    refine ⟨next,next',hfirst,hvalue,?_,hsecond,?_⟩
    · rw [Int64.le_iff_toInt_le,hvalue]
      exact min_le_left _ _
    · rw [Int64.le_iff_toInt_le,hvalue,hvalue',List.map_append,List.foldl_append]
      exact min_le_min_left _ (add_le_add_left (le_foldl_max _ _) _)

end SpareNode.Http
