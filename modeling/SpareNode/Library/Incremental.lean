import Mathlib.Data.List.Basic

/-! # Incremental scanners

A scanner of a growing input either fails, asks for more input or reports a value.
It is stable when more input never revises a verdict it has given. Then retrying on
an accumulating buffer finds the verdict on the whole input, whatever the fragments.
-/
namespace Incremental
variable {α β γ ε : Type*}

/-- More input changes nothing but a request for more input. -/
def Stable (f : List α → Except ε (Option β)) : Prop :=
  ∀ p q, f p ≠ .ok none → f (p ++ q) = f p

/-- A scanner whose value selects what is scanned next. -/
def chain (f : List α → Except ε (Option β)) (g : β → List α → Except ε (Option γ))
    (input : List α) : Except ε (Option γ) :=
  match f input with
  | .error e => .error e
  | .ok none => .ok none
  | .ok (some b) => g b input

/-- The second scanner has to be stable only on inputs that select it. -/
theorem Stable.chain {f : List α → Except ε (Option β)} {g : β → List α → Except ε (Option γ)}
    (hf : Stable f)
    (hg : ∀ b p q, f p = .ok (some b) → g b p ≠ .ok none → g b (p ++ q) = g b p) :
    Stable (chain f g) := by
  intro p q h
  unfold Incremental.chain at h ⊢
  cases hp : f p with
  | error e => rw [hf p q (by simp [hp]),hp]
  | ok v =>
    cases v with
    | none => simp [hp] at h
    | some b =>
      rw [hp] at h
      rw [hf p q (by simp [hp]),hp]
      exact hg b p q hp h

/-- A verdict under other names for its errors and values. -/
def relabel {δ : Type*} (g : ε → δ) (k : β → γ) : Except ε (Option β) → Except δ (Option γ)
  | .error e => .error (g e)
  | .ok none => .ok none
  | .ok (some b) => .ok (some (k b))

theorem Stable.relabel {δ : Type*} {f : List α → Except ε (Option β)} (hf : Stable f) (g : ε → δ)
    (k : β → γ) : Stable (fun input => relabel g k (f input)) := by
  intro p q h
  dsimp only at h ⊢
  rw [hf p q]
  intro hp
  rw [hp] at h
  exact h rfl

/-- Before a stable scanner reports a verdict it asks for more on every part. -/
theorem Stable.pending {f : List α → Except ε (Option β)} (hf : Stable f) {p q : List α}
    (h : f (p ++ q) = .ok none) : f p = .ok none := by
  by_contra hp
  exact hp ((hf p q hp).symm.trans h)

end Incremental
