import SpareNode.Network.ConnectionAdmission

/-! # Request deadlines

Receive budgets are milliseconds, times are nanoseconds of a 64-bit clock. The inactivity
deadline moves with every receive; the total deadline stands from the acceptance of the
connection on.
-/
namespace SpareNode.Http
open Network

/-- `NetworkDeadline::max()`. -/
def clockMax : ℤ := 2 ^ 63 - 1

/-- `HttpRequestTimeouts`. -/
structure HttpRequestTimeouts where
  headers : ℤ := 10000
  body : ℤ := 10000
  total : ℤ := 30000
deriving DecidableEq, Repr

def maximumConfigTimeout : ℤ := 24 * 60 * 60 * 1000

def checkedDeadline (started timeout : ℤ) : Option ℤ :=
  if timeout ≤ 0 ∨ started < 0 then none
  else
    let remaining := clockMax - started
    if remaining / 1000000 < timeout then none
    else if milliseconds timeout ≤ 0 ∨ remaining < milliseconds timeout then none
    else some (started + milliseconds timeout)

structure RequestDeadlines where
  timeouts : HttpRequestTimeouts
  lastProgress : ℤ
  total : ℤ
deriving DecidableEq, Repr

namespace RequestDeadlines

def create (timeouts : HttpRequestTimeouts) (started : ℤ) : Option RequestDeadlines :=
  match checkedDeadline started timeouts.total with
  | none => none
  | some total =>
    if (checkedDeadline started timeouts.headers).isNone || (checkedDeadline started timeouts.body).isNone
    then none
    else some ⟨timeouts,started,total⟩

def recordProgress (deadlines : RequestDeadlines) (receivedAt : ℤ) : RequestDeadlines :=
  { deadlines with lastProgress := max deadlines.lastProgress receivedAt }

def next (deadlines : RequestDeadlines) (readingBody : Bool) : ℤ :=
  match checkedDeadline deadlines.lastProgress
      (if readingBody then deadlines.timeouts.body else deadlines.timeouts.headers) with
  | some inactivity => min inactivity deadlines.total
  | none => deadlines.total

end RequestDeadlines

theorem checkedDeadline_eq {started timeout deadline : ℤ} (h : checkedDeadline started timeout = some deadline) :
    0 < timeout ∧ 0 ≤ started ∧ deadline = started + milliseconds timeout ∧ deadline ≤ clockMax := by
  unfold checkedDeadline at h
  dsimp only at h
  split at h
  · cases h
  · split at h
    · cases h
    · split at h
      · cases h
      · cases h
        omega

theorem checkedDeadline_none {started timeout : ℤ} (h : checkedDeadline started timeout = none)
    (hstarted : 0 ≤ started) (htimeout : 0 < timeout) : clockMax < started + milliseconds timeout := by
  unfold checkedDeadline milliseconds at h
  dsimp only at h
  unfold milliseconds
  split at h
  · omega
  · split at h
    · omega
    · split at h
      · omega
      · cases h

theorem create_deadlines {timeouts : HttpRequestTimeouts} {started : ℤ} {deadlines : RequestDeadlines}
    (h : RequestDeadlines.create timeouts started = some deadlines) :
    0 ≤ started ∧ 0 < timeouts.headers ∧ started + milliseconds timeouts.total ≤ clockMax ∧
      deadlines = ⟨timeouts,started,started + milliseconds timeouts.total⟩ := by
  unfold RequestDeadlines.create at h
  split at h
  · cases h
  · rename_i total htotal
    obtain ⟨-,hstarted,rfl,hmax⟩ := checkedDeadline_eq htotal
    split at h
    · cases h
    · rename_i hvalid
      cases h
      cases hheaders : checkedDeadline started timeouts.headers with
      | none => simp [hheaders] at hvalid
      | some headers => exact ⟨hstarted,(checkedDeadline_eq hheaders).1,hmax,rfl⟩

end SpareNode.Http
