import Mathlib.Data.Int.Notation
import Mathlib.Order.Lattice
import Mathlib.Tactic.Common

/-! # The cooldown of failed logins

A state machine of constant size. Time points and durations of the steady clock are counts of
nanoseconds in signed 64-bit integers; what C++ leaves undefined on overflow wraps here.
-/
namespace SpareNode.Authentication

abbrev TimePoint := Int64

abbrev Duration := Int64

/-- The defaults are 5 failures and 30 seconds. -/
structure AuthenticationRateLimitPolicy where
  maximumFailures : ℕ := 5
  cooldown : Duration := 30 * 1000000000
deriving DecidableEq, Repr

structure AuthenticationRateLimiter where
  policy : AuthenticationRateLimitPolicy
  consecutiveFailures : ℕ := 0
  blockedUntil : TimePoint := 0
deriving DecidableEq, Repr

namespace AuthenticationRateLimiter

def allows (l : AuthenticationRateLimiter) (now : TimePoint) : Bool × AuthenticationRateLimiter :=
  if l.consecutiveFailures < l.policy.maximumFailures then (true,l)
  else if now < l.blockedUntil then (false,l)
  else (true,{ l with consecutiveFailures := 0, blockedUntil := 0 })

def recordFailure (l : AuthenticationRateLimiter) (now : TimePoint) : AuthenticationRateLimiter :=
  if l.policy.maximumFailures ≤ l.consecutiveFailures then l
  else
    let l := { l with consecutiveFailures := l.consecutiveFailures + 1 }
    if l.consecutiveFailures = l.policy.maximumFailures then
      let remaining := Int64.maxValue - now
      { l with
        blockedUntil := if remaining < l.policy.cooldown then Int64.maxValue else now + l.policy.cooldown }
    else l

def recordSuccess (l : AuthenticationRateLimiter) : AuthenticationRateLimiter :=
  { l with consecutiveFailures := 0, blockedUntil := 0 }

/-- The cooldown of a full count has not elapsed. -/
def Blocked (l : AuthenticationRateLimiter) (now : TimePoint) : Prop :=
  l.policy.maximumFailures ≤ l.consecutiveFailures ∧ now < l.blockedUntil

variable {l : AuthenticationRateLimiter} {now : TimePoint}

/-- An attempt is turned away, or let through as it is, or starts a new count. -/
theorem allows_cases (l : AuthenticationRateLimiter) (now : TimePoint) :
    (l.Blocked now ∧ l.allows now = (false,l)) ∨
    (l.consecutiveFailures < l.policy.maximumFailures ∧ l.allows now = (true,l)) ∨
    (l.policy.maximumFailures ≤ l.consecutiveFailures ∧ l.blockedUntil ≤ now ∧
      l.allows now = (true,l.recordSuccess)) := by
  unfold allows Blocked
  split
  · rename_i hroom
    exact .inr (.inl ⟨hroom,rfl⟩)
  · rename_i hfull
    split
    · rename_i hearly
      exact .inl ⟨⟨Nat.not_lt.mp hfull,hearly⟩,rfl⟩
    · rename_i helapsed
      exact .inr (.inr ⟨Nat.not_lt.mp hfull,Int64.not_lt.mp helapsed,rfl⟩)

theorem allows_eq_false_iff : (l.allows now).1 = false ↔ l.Blocked now := by
  rcases l.allows_cases now with ⟨hblocked,heq⟩ | ⟨hroom,heq⟩ | ⟨-,helapsed,heq⟩
  · rw [heq]
    exact ⟨fun _ => hblocked,fun _ => rfl⟩
  · rw [heq]
    exact ⟨fun h => absurd h (by simp),fun h => absurd hroom (Nat.not_lt.mpr h.1)⟩
  · rw [heq]
    exact ⟨fun h => absurd h (by simp),fun h => absurd h.2 (Int64.not_lt.mpr helapsed)⟩

/-- A limiter that turns an attempt away stays as it is. -/
theorem allows_of_blocked (h : l.Blocked now) : l.allows now = (false,l) := by
  have hfalse := allows_eq_false_iff.mpr h
  rcases l.allows_cases now with ⟨-,heq⟩ | ⟨-,heq⟩ | ⟨-,-,heq⟩
  · exact heq
  · rw [heq] at hfalse
    exact absurd hfalse (by simp)
  · rw [heq] at hfalse
    exact absurd hfalse (by simp)

theorem allows_room (hpolicy : 0 < l.policy.maximumFailures) (h : (l.allows now).1 = true) :
    (l.allows now).2.consecutiveFailures < l.policy.maximumFailures := by
  rcases l.allows_cases now with ⟨-,heq⟩ | ⟨hroom,heq⟩ | ⟨-,-,heq⟩
  · rw [heq] at h
    exact absurd h (by simp)
  · rw [heq]
    exact hroom
  · rw [heq]
    exact hpolicy

/-- A deadline that fits is exact, and one that does not is the last time point. -/
theorem deadline_toInt {cooldown : Duration} (hnow : 0 ≤ now) (hcooldown : 0 ≤ cooldown) :
    (if Int64.maxValue - now < cooldown then Int64.maxValue else now + cooldown).toInt =
      min (now.toInt + cooldown.toInt) Int64.maxValue.toInt := by
  have hnow' : 0 ≤ now.toInt := by simpa using Int64.le_iff_toInt_le.mp hnow
  have hcooldown' : 0 ≤ cooldown.toInt := by simpa using Int64.le_iff_toInt_le.mp hcooldown
  have hbound := Int64.toInt_lt cooldown
  have hremaining : (Int64.maxValue - now).toInt = Int64.maxValue.toInt - now.toInt :=
    Int64.toInt_sub_of_le _ _ hnow (Int64.le_iff_toInt_le.mpr now.toInt_le)
  have hmax := Int64.toInt_maxValue
  split
  · rename_i hlate
    rw [Int64.lt_iff_toInt_lt,hremaining] at hlate
    rw [min_eq_right (by omega)]
  · rename_i hfits
    rw [Int64.lt_iff_toInt_lt,hremaining] at hfits
    rw [min_eq_left (by omega),Int64.toInt_add,Int.bmod_eq_of_le (by omega) (by omega)]

/-- A failure of a limiter that has room is counted, and the last one sets the deadline. -/
theorem recordFailure_room (hroom : l.consecutiveFailures < l.policy.maximumFailures) (hnow : 0 ≤ now)
    (hcooldown : 0 ≤ l.policy.cooldown) :
    (l.recordFailure now).policy = l.policy ∧
    (l.recordFailure now).consecutiveFailures = l.consecutiveFailures + 1 ∧
    (l.consecutiveFailures + 1 = l.policy.maximumFailures →
      (l.recordFailure now).blockedUntil.toInt =
        min (now.toInt + l.policy.cooldown.toInt) Int64.maxValue.toInt) ∧
    (l.consecutiveFailures + 1 ≠ l.policy.maximumFailures →
      (l.recordFailure now).blockedUntil = l.blockedUntil) := by
  unfold recordFailure
  rw [if_neg (Nat.not_le.mpr hroom)]
  dsimp only
  split
  · rename_i hlast
    exact ⟨rfl,rfl,fun _ => deadline_toInt hnow hcooldown,fun hmore => absurd hlast hmore⟩
  · rename_i hmore
    exact ⟨rfl,rfl,fun hlast => absurd hlast hmore,fun _ => rfl⟩

theorem recordFailure_full (h : l.policy.maximumFailures ≤ l.consecutiveFailures) :
    l.recordFailure now = l := if_pos h

end AuthenticationRateLimiter
end SpareNode.Authentication
