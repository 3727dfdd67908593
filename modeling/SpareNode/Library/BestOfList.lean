import Mathlib.Data.List.MinMax
import Mathlib.Data.List.Perm.Basic

/-! # The best element of a list

A scan that replaces what it has kept by a later element that is better. Nothing in the list is
better than what remains, and where only one element has none above it the order of the list does
not matter.
-/
namespace SpareNode.BestOfList
variable {α : Type*} (r : α → α → Prop) [DecidableRel r] {l : List α} {a : α}

/-- The element that a scan keeps; `r a b` reads "`a` is better than `b`". -/
def best (l : List α) : Option α := l.foldl (List.argAux r) none

@[simp] theorem best_eq_none : best r l = none ↔ l = [] := by
  simp [best]

/-- Only one element of the list has no better one. -/
def Unambiguous (l : List α) : Prop := ∀ a ∈ l, ∀ b ∈ l, ¬r a b → ¬r b a → a = b

variable {r}

theorem foldl_argAux_mem (l : List α) : ∀ o a, l.foldl (List.argAux r) o = some a → o = some a ∨ a ∈ l := by
  induction l with
  | nil => exact fun o a h => Or.inl h
  | cons b l ih =>
    intro o a h
    rcases ih _ _ h with hb | hmem
    · cases o with
      | none =>
        rw [List.argAux] at hb
        exact Or.inr (List.mem_cons.mpr (Or.inl (Option.some.inj hb).symm))
      | some c =>
        simp only [List.argAux] at hb
        split at hb
        · exact Or.inr (List.mem_cons.mpr (Or.inl (Option.some.inj hb).symm))
        · exact Or.inl hb
    · exact Or.inr (List.mem_cons_of_mem b hmem)

theorem best_mem (h : best r l = some a) : a ∈ l :=
  (foldl_argAux_mem l none a h).resolve_left (nomatch ·)

variable [IsStrictOrder α r]

/-- Nothing in the list is better than what the scan keeps. -/
theorem best_max (h : best r l = some a) {b : α} (hb : b ∈ l) : ¬r b a :=
  List.not_of_mem_foldl_argAux r inferInstance inferInstance hb h

theorem best_iff (hl : Unambiguous r l) : best r l = some a ↔ a ∈ l ∧ ∀ b ∈ l, ¬r b a := by
  constructor
  · exact fun h => ⟨best_mem h,fun b hb => best_max h hb⟩
  · rintro ⟨ha,hmax⟩
    cases hbest : best r l with
    | none =>
      rw [(best_eq_none r).mp hbest] at ha
      cases ha
    | some c =>
      rw [hl c (best_mem hbest) a ha (hmax c (best_mem hbest)) (best_max hbest ha)]

theorem best_perm {l' : List α} (h : l.Perm l') (hl : Unambiguous r l) : best r l = best r l' := by
  have hl' : Unambiguous r l' := fun a ha b hb => hl a (h.mem_iff.mpr ha) b (h.mem_iff.mpr hb)
  apply Option.ext
  intro a
  simp only [best_iff hl,best_iff hl',h.mem_iff]

end SpareNode.BestOfList
