import Mathlib.Data.List.Pairwise
import Mathlib.Data.List.Nodup
import Mathlib.Tactic.Common

/-! # Search by halving

The search for the point up to which a property holds. A range is halved at its middle element, which
decides in which half the search goes on; where the range is ordered by the property, what is found is
the first element without it.
-/
namespace SortedSearch
variable {α : Type*} {below : α → Bool} {xs : List α}

/-- The search of a range: its length is halved until nothing is left. -/
def partitionPoint (below : α → Bool) (xs : List α) : ℕ :=
  match _hmiddle : xs.drop (xs.length / 2) with
  | [] => 0
  | middle :: after =>
    if below middle then xs.length / 2 + 1 + partitionPoint below after
    else partitionPoint below (xs.take (xs.length / 2))
termination_by xs.length
decreasing_by
  · have hlength := congrArg List.length _hmiddle
    rw [List.length_drop,List.length_cons] at hlength
    omega
  · have hlength := congrArg List.length _hmiddle
    rw [List.length_drop,List.length_cons] at hlength
    rw [List.length_take]
    omega

/-- Nothing with the property stands behind an element without it. -/
def Partitioned (below : α → Bool) (xs : List α) : Prop :=
  xs.Pairwise (fun before after => below after = true → below before = true)

theorem takeWhile_append_stop (front back : List α) {x : α} (hx : below x = false) :
    (front ++ x :: back).takeWhile below = front.takeWhile below := by
  induction front with
  | nil => exact List.takeWhile_cons_of_neg (by simp [hx])
  | cons y front ih =>
    rw [List.cons_append,List.takeWhile_cons,List.takeWhile_cons,ih]

/-- The search ends behind the last element with the property. -/
theorem partitionPoint_eq (h : Partitioned below xs) :
    partitionPoint below xs = (xs.takeWhile below).length := by
  fun_induction partitionPoint below xs with
  | case1 xs hmiddle =>
    have hlength := congrArg List.length hmiddle
    rw [List.length_drop,List.length_nil] at hlength
    have hempty : xs = [] := List.length_eq_zero_iff.mp (by omega)
    rw [hempty]
    rfl
  | case2 xs middle after hmiddle hbelow ih =>
    have hcut : xs.take (xs.length / 2) ++ middle :: after = xs := by rw [← hmiddle,List.take_append_drop]
    have hparts := h
    rw [← hcut] at hparts
    obtain ⟨-,hback,hcross⟩ := List.pairwise_append.mp hparts
    have hall : ∀ x ∈ xs.take (xs.length / 2) ++ [middle], below x = true := by
      intro x hx
      rcases List.mem_append.mp hx with hx | hx
      · exact hcross x hx middle List.mem_cons_self hbelow
      · rwa [List.mem_singleton.mp hx]
    have hcounted : (xs.take (xs.length / 2) ++ [middle]).length = xs.length / 2 + 1 := by
      rw [List.length_append,List.length_take,List.length_singleton]
      omega
    have hwhole : xs.takeWhile below = xs.take (xs.length / 2) ++ [middle] ++ after.takeWhile below := by
      rw [← List.takeWhile_append_of_pos hall,List.append_assoc,List.singleton_append,hcut]
    rw [hwhole,List.length_append,hcounted,ih (List.pairwise_cons.mp hback).2]
  | case3 xs middle after hmiddle hstop ih =>
    have hcut : xs.take (xs.length / 2) ++ middle :: after = xs := by rw [← hmiddle,List.take_append_drop]
    have hparts := h
    rw [← hcut] at hparts
    have hwhole := takeWhile_append_stop (xs.take (xs.length / 2)) after (by simpa using hstop)
    rw [hcut] at hwhole
    rw [hwhole,ih (List.pairwise_append.mp hparts).1]

/-- The element found is the first one without the property. -/
theorem getElem?_partitionPoint (h : Partitioned below xs) :
    xs[partitionPoint below xs]? = xs.find? (fun x => !below x) := by
  rw [partitionPoint_eq h]
  clear h
  induction xs with
  | nil => rfl
  | cons x xs ih =>
    cases hx : below x with
    | true =>
      rw [List.takeWhile_cons_of_pos hx,List.find?_cons_of_neg (by simp [hx]),← ih]
      rfl
    | false =>
      rw [List.takeWhile_cons_of_neg (by simp [hx]),List.find?_cons_of_pos (by simp [hx])]
      rfl

theorem mergeSort_increasing {κ : Type*} [LE κ] [LT κ] [DecidableLE κ] [Std.IsLinearOrder κ] [Std.LawfulOrderLT κ]
    {key : α → κ} (hdistinct : (xs.map key).Nodup) :
    (xs.mergeSort fun a b => decide (key a ≤ key b)).Pairwise (fun a b => key a < key b) := by
  have hsorted : (xs.mergeSort fun a b => decide (key a ≤ key b)).Pairwise
      (fun a b => decide (key a ≤ key b) = true) := by
    apply List.pairwise_mergeSort
    · intro a b c hab hbc
      rw [decide_eq_true_eq] at hab hbc ⊢
      exact Std.le_trans hab hbc
    · intro a b
      rw [Bool.or_eq_true,decide_eq_true_eq,decide_eq_true_eq]
      exact Std.le_total
  have hdifferent : (xs.mergeSort fun a b => decide (key a ≤ key b)).Pairwise (fun a b => key a ≠ key b) := by
    have hperm := (List.mergeSort_perm xs fun a b => decide (key a ≤ key b)).map key
    exact List.pairwise_map.mp (hperm.nodup_iff.mpr hdistinct)
  apply (hsorted.and hdifferent).imp
  intro a b hab
  exact Std.lt_of_le_of_ne (of_decide_eq_true hab.1) hab.2

/-- Of elements in strict order, the one with a key is the first that is not below the key. -/
theorem find?_not_lt {κ : Type*} {key : α → κ} {lt : κ → κ → Prop} [DecidableRel lt] (hirrefl : ∀ k, ¬lt k k)
    (hsorted : xs.Pairwise (fun a b => lt (key a) (key b))) {x : α}
    (hx : x ∈ xs) : xs.find? (fun y => !decide (lt (key y) (key x))) = some x := by
  induction xs with
  | nil => cases hx
  | cons y xs ih =>
    obtain ⟨hfirst,hrest⟩ := List.pairwise_cons.mp hsorted
    rcases List.mem_cons.mp hx with rfl | hmem
    · exact List.find?_cons_of_pos (by simp [hirrefl])
    · rw [List.find?_cons_of_neg (by simp [hfirst x hmem])]
      exact ih hrest hmem

end SortedSearch
