import Mathlib.Data.List.Basic
import Mathlib.Logic.Function.Basic
import Mathlib.Tactic.Common

/-! # Tokens with one holder each

Places hold at most one token. Where every live token has exactly one place, issuing a token,
moving it and retiring it keep it so, and no live token can be lost on the way.
-/

/-- Every live token is in exactly one place, and the places hold nothing else. -/
structure TokensHeld {η τ : Type*} (live : τ → Prop) (place : η → Option τ) : Prop where
  out : ∀ h t, place h = some t → live t
  unique : ∀ h k t, place h = some t → place k = some t → h = k
  held : ∀ t, live t → ∃ h, place h = some t

namespace TokensHeld
variable {η τ : Type*} [DecidableEq η] {live live' : τ → Prop} {place : η → Option τ} {j k : η} {t : τ}

omit [DecidableEq η] in
theorem congr_live (h : TokensHeld live place) (hlive : ∀ u, live' u ↔ live u) : TokensHeld live' place :=
  ⟨fun x u hx => (hlive u).mpr (h.out x u hx),h.unique,fun u hu => h.held u ((hlive u).mp hu)⟩

theorem issue (h : TokensHeld live place) (hempty : place k = none) (hnew : ¬live t)
    (hlive : ∀ u, live' u ↔ live u ∨ u = t) : TokensHeld live' (Function.update place k (some t)) := by
  have hfresh (x : η) : place x ≠ some t := fun hx => hnew (h.out x t hx)
  refine ⟨?_,?_,?_⟩
  · intro x u hx
    by_cases hxk : x = k
    · subst hxk
      rw [Function.update_self] at hx
      exact (hlive u).mpr (.inr (Option.some.inj hx).symm)
    · rw [Function.update_of_ne hxk] at hx
      exact (hlive u).mpr (.inl (h.out x u hx))
  · intro x y u hx hy
    by_cases hxk : x = k
    · by_cases hyk : y = k
      · exact hxk.trans hyk.symm
      · subst hxk
        rw [Function.update_self] at hx
        rw [Function.update_of_ne hyk,← hx] at hy
        exact absurd hy (hfresh y)
    · by_cases hyk : y = k
      · subst hyk
        rw [Function.update_self] at hy
        rw [Function.update_of_ne hxk,← hy] at hx
        exact absurd hx (hfresh x)
      · rw [Function.update_of_ne hxk] at hx
        rw [Function.update_of_ne hyk] at hy
        exact h.unique x y u hx hy
  · intro u hu
    rcases (hlive u).mp hu with hold | rfl
    · obtain ⟨x,hx⟩ := h.held u hold
      have hxk : x ≠ k := by
        rintro rfl
        exact absurd (hempty.symm.trans hx) (by simp)
      exact ⟨x,by rw [Function.update_of_ne hxk]; exact hx⟩
    · exact ⟨k,Function.update_self _ _ _⟩

theorem retire (h : TokensHeld live place) (hk : place k = some t)
    (hlive : ∀ u, live' u ↔ live u ∧ u ≠ t) : TokensHeld live' (Function.update place k none) := by
  have hother {x : η} {u : τ} (hx : Function.update place k none x = some u) : x ≠ k ∧ place x = some u := by
    by_cases hxk : x = k
    · subst hxk
      rw [Function.update_self] at hx
      exact absurd hx (by simp)
    · rw [Function.update_of_ne hxk] at hx
      exact ⟨hxk,hx⟩
  refine ⟨?_,fun x y u hx hy => h.unique x y u (hother hx).2 (hother hy).2,?_⟩
  · intro x u hx
    obtain ⟨hxk,hx'⟩ := hother hx
    refine (hlive u).mpr ⟨h.out x u hx',?_⟩
    rintro rfl
    exact hxk (h.unique x k u hx' hk)
  · intro u hu
    obtain ⟨hold,hne⟩ := (hlive u).mp hu
    obtain ⟨x,hx⟩ := h.held u hold
    have hxk : x ≠ k := by
      rintro rfl
      exact hne (Option.some.inj (hx.symm.trans hk))
    exact ⟨x,by rw [Function.update_of_ne hxk]; exact hx⟩

/-- A token goes from its place to an empty one. -/
theorem move (h : TokensHeld live place) (hj : place j = some t) (hempty : place k = none) :
    TokensHeld live (Function.update (Function.update place j none) k (some t)) := by
  have hne : j ≠ k := by
    rintro rfl
    exact absurd (hj.symm.trans hempty) (by simp)
  have hout : TokensHeld (fun u => live u ∧ u ≠ t) (Function.update place j none) :=
    h.retire hj fun u => Iff.rfl
  refine hout.issue ?_ (fun hself => hself.2 rfl) ?_
  · rw [Function.update_of_ne hne.symm]
    exact hempty
  · intro u
    constructor
    · intro hu
      by_cases hut : u = t
      · exact .inr hut
      · exact .inl ⟨hu,hut⟩
    · rintro (hu | rfl)
      · exact hu.1
      · exact h.out j u hj

end TokensHeld
