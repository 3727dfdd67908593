import Mathlib.Order.Basic
import Mathlib.Order.Monotone.Basic
import Mathlib.Tactic.Common

/-! # Weak fairness

A measure along a run that never rises, and that an action takes down wherever it stays up, reaches
zero when the action is not put off for ever.
-/

def WeaklyFair (enabled taken : ℕ → Prop) : Prop :=
  ∀ n, (∀ m, n ≤ m → enabled m) → ∃ m, n ≤ m ∧ taken m

variable {f : ℕ → ℕ} {n : ℕ}

/-- A measure that never rises from `n` on. -/
theorem le_of_step_le (hstep : ∀ m, n ≤ m → f (m + 1) ≤ f m) {k m : ℕ} (hk : n ≤ k) (hkm : k ≤ m) :
    f m ≤ f k := by
  induction m,hkm using Nat.le_induction with
  | base => exact le_rfl
  | succ m hm ih => exact (hstep m (hk.trans hm)).trans ih

/-- A fair action takes a measure down, if it is possible as long as the measure stays up. -/
theorem WeaklyFair.drops {enabled taken : ℕ → Prop} (hfair : WeaklyFair enabled taken)
    (hstep : ∀ m, n ≤ m → f (m + 1) ≤ f m) (henabled : ∀ m, n ≤ m → f m = f n → enabled m)
    (hdrop : ∀ m, n ≤ m → f m = f n → taken m → f (m + 1) < f m) : ∃ m, n ≤ m ∧ f m < f n := by
  by_contra hstays
  have hlevel (m : ℕ) (hm : n ≤ m) : f m = f n :=
    (le_of_step_le hstep le_rfl hm).antisymm (not_lt.mp fun hlt => hstays ⟨m,hm,hlt⟩)
  obtain ⟨m,hm,htaken⟩ := hfair n fun m hm => henabled m hm (hlevel m hm)
  have hlt := hdrop m hm (hlevel m hm) htaken
  exact hstays ⟨m + 1,hm.trans (Nat.le_succ m),hlt.trans_eq (hlevel m hm)⟩

/-- A measure that is taken down again and again reaches zero. -/
theorem reaches_zero (hdrop : ∀ m, n ≤ m → 0 < f m → ∃ k, m ≤ k ∧ f k < f m) : ∃ m, n ≤ m ∧ f m = 0 := by
  have hreaches (v : ℕ) : ∀ m, n ≤ m → f m = v → ∃ k, n ≤ k ∧ f k = 0 := by
    induction v using Nat.strong_induction_on with
    | _ v ih =>
      intro m hm hv
      rcases Nat.eq_zero_or_pos (f m) with hzero | hpos
      · exact ⟨m,hm,hzero⟩
      · obtain ⟨k,hk,hlt⟩ := hdrop m hm hpos
        exact ih (f k) (hv ▸ hlt) k (hm.trans hk) rfl
  exact hreaches (f n) n le_rfl rfl
