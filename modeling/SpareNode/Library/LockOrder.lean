import Mathlib.Logic.Function.Basic
import Mathlib.Tactic

/-! # Mutexes that are taken in order

Each mutex has at most one holder. Where every holder that waits does so for a mutex of a higher rank than all it holds,
not all of them wait: along the mutexes that are waited for and their holders the rank grows.
-/

/-- The holder of a mutex is who holds it. -/
structure MutexesHeld {μ τ : Type*} (holder : μ → Option τ) (holds : τ → μ → Prop) : Prop where
  iff : ∀ m t, holder m = some t ↔ holds t m

namespace MutexesHeld
variable {μ τ : Type*} {holder : μ → Option τ} {holds holds' : τ → μ → Prop} {m : μ} {t : τ}

theorem congr (h : MutexesHeld holder holds) (hsame : ∀ u k, holds' u k ↔ holds u k) : MutexesHeld holder holds' :=
  ⟨fun k u => (h.iff k u).trans (hsame u k).symm⟩

theorem exclusive (h : MutexesHeld holder holds) {u : τ} (ht : holds t m) (hu : holds u m) : t = u :=
  Option.some.inj (((h.iff m t).mpr ht).symm.trans ((h.iff m u).mpr hu))

variable [DecidableEq μ]

theorem acquire (h : MutexesHeld holder holds) (hfree : holder m = none)
    (hholds : ∀ u k, holds' u k ↔ holds u k ∨ u = t ∧ k = m) :
    MutexesHeld (Function.update holder m (some t)) holds' := by
  constructor
  intro k u
  rw [hholds]
  by_cases hk : k = m
  · subst hk
    have hnone : ¬holds u k := by
      rw [← h.iff,hfree]
      exact Option.some_ne_none u |>.symm
    rw [Function.update_self]
    constructor
    · intro hu
      exact .inr ⟨(Option.some.inj hu).symm,rfl⟩
    · rintro (hu | ⟨rfl,-⟩)
      · exact absurd hu hnone
      · rfl
  · rw [Function.update_of_ne hk,h.iff]
    constructor
    · exact .inl
    · rintro (hu | ⟨-,hkm⟩)
      · exact hu
      · exact absurd hkm hk

theorem release (h : MutexesHeld holder holds) (ht : holds t m)
    (hholds : ∀ u k, holds' u k ↔ holds u k ∧ ¬(u = t ∧ k = m)) :
    MutexesHeld (Function.update holder m none) holds' := by
  constructor
  intro k u
  rw [hholds]
  by_cases hk : k = m
  · subst hk
    rw [Function.update_self]
    constructor
    · intro hu
      cases hu
    · rintro ⟨hu,hother⟩
      exact absurd ⟨h.exclusive hu ht,rfl⟩ hother
  · rw [Function.update_of_ne hk,h.iff]
    constructor
    · exact fun hu => ⟨hu,fun hsame => hk hsame.2⟩
    · exact And.left

omit [DecidableEq μ] in
/-- Someone does not wait, where mutexes are waited for in order. -/
theorem exists_unblocked (h : MutexesHeld holder holds) {active : τ → Prop} {wants : τ → Option μ} {rank : μ → ℕ}
    {bound : ℕ} (hbound : ∀ m, rank m ≤ bound) (hholds : ∀ t m, holds t m → active t)
    (hordered : ∀ t m k, wants t = some m → holds t k → rank k < rank m) (hactive : active t) :
    ∃ u, active u ∧ ∀ m, wants u = some m → holder m = none := by
  -- the rank of what is waited for grows towards its bound
  induction hn : bound + 1 - (wants t).elim 0 rank using Nat.strong_induction_on generalizing t with
  | _ n ih =>
    cases hwants : wants t with
    | none => exact ⟨t,hactive,by simp [hwants]⟩
    | some m =>
      cases hholder : holder m with
      | none =>
        refine ⟨t,hactive,fun k hk => ?_⟩
        rw [hwants] at hk
        rw [← Option.some.inj hk,hholder]
      | some u =>
        have hu := (h.iff m u).mp hholder
        cases hnext : wants u with
        | none => exact ⟨u,hholds u m hu,by simp [hnext]⟩
        | some k =>
          have hrank := hordered u k m hnext hu
          have hle := hbound k
          refine ih _ ?_ (hholds u m hu) rfl
          rw [← hn,hwants,hnext]
          simp only [Option.elim_some]
          omega

end MutexesHeld
