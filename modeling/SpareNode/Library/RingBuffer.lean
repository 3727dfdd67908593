import Mathlib.Data.List.Rotate
import Mathlib.Tactic

/-! # Ring buffers

A fixed number of slots, the position of the oldest element and a count. A ring holds a queue when
the slots from its head on are the elements of the queue followed by empty slots; pushing and
popping are then the queue's.
-/
namespace SpareNode

structure Ring (α : Type*) where
  slots : List (Option α)
  head : ℕ
  count : ℕ
deriving DecidableEq, Repr

namespace Ring
variable {α : Type*}

def empty (α : Type*) (size : ℕ) : Ring α := ⟨List.replicate size none,0,0⟩

/-- Places an element in the slot behind the last one. -/
def push (ring : Ring α) (a : α) : Ring α :=
  ⟨ring.slots.set ((ring.head + ring.count) % ring.slots.length) (some a),ring.head,ring.count + 1⟩

/-- Takes the element out of the slot at the head; there is no result where that slot is empty. -/
def pop (ring : Ring α) : Option (α × Ring α) :=
  match ring.slots[ring.head]? with
  | some (some a) =>
    some (a,⟨ring.slots.set ring.head none,(ring.head + 1) % ring.slots.length,ring.count - 1⟩)
  | _ => none

def clear (ring : Ring α) : Ring α := empty α ring.slots.length

def occupied (ring : Ring α) : ℕ := (ring.slots.filter Option.isSome).length

/-- The slots from the head on are the queue, and the others are empty. -/
structure Holds (ring : Ring α) (queue : List α) : Prop where
  head : ring.head < ring.slots.length
  count : ring.count = queue.length
  fits : queue.length ≤ ring.slots.length
  slot : ∀ i < ring.slots.length, ring.slots[(ring.head + i) % ring.slots.length]? = some queue[i]?

variable {ring : Ring α} {queue : List α} {a : α}

@[simp] theorem push_size (ring : Ring α) (a : α) : (ring.push a).slots.length = ring.slots.length := by
  simp [push]

@[simp] theorem clear_size (ring : Ring α) : ring.clear.slots.length = ring.slots.length := by
  simp [clear,empty]

theorem empty_holds {size : ℕ} (h : 0 < size) : (empty α size).Holds [] := by
  refine ⟨by simpa [empty] using h,rfl,Nat.zero_le _,?_⟩
  intro i hi
  simp only [empty,List.length_replicate] at hi ⊢
  simp [Nat.mod_eq_of_lt hi,hi]

theorem Holds.clear (h : ring.Holds queue) : ring.clear.Holds [] :=
  empty_holds (Nat.zero_lt_of_lt h.head)

theorem offset_inj {head size i j : ℕ} (hi : i < size) (hj : j < size)
    (h : (head + i) % size = (head + j) % size) : i = j := by
  have hmod : i ≡ j [MOD size] := Nat.ModEq.add_left_cancel' head h
  rwa [Nat.ModEq,Nat.mod_eq_of_lt hi,Nat.mod_eq_of_lt hj] at hmod

/-- Every slot is some number of places behind the head. -/
theorem exists_offset {head size j : ℕ} (hhead : head < size) (hj : j < size) :
    ∃ i < size, (head + i) % size = j := by
  by_cases h : head ≤ j
  · exact ⟨j - head,by omega,by rw [Nat.add_sub_cancel' h,Nat.mod_eq_of_lt hj]⟩
  · refine ⟨j + size - head,by omega,?_⟩
    rw [show head + (j + size - head) = j + size by omega,Nat.add_mod_right,Nat.mod_eq_of_lt hj]

theorem Holds.push (h : ring.Holds queue) (hroom : queue.length < ring.slots.length) :
    (ring.push a).Holds (queue ++ [a]) := by
  have hsize := Nat.zero_lt_of_lt h.head
  refine ⟨by simpa [Ring.push] using h.head,?_,?_,?_⟩
  · rw [List.length_append,List.length_singleton,← h.count]
    rfl
  · rw [List.length_append,List.length_singleton,push_size]
    exact hroom
  · intro i hi
    rw [push_size] at hi ⊢
    rw [Ring.push,h.count,List.getElem?_set]
    by_cases hlast : i = queue.length
    · subst hlast
      rw [if_pos rfl,if_pos (Nat.mod_lt _ hsize)]
      simp
    · rw [if_neg (fun heq => hlast (offset_inj hroom hi heq).symm),h.slot i hi]
      rcases Nat.lt_or_gt_of_ne hlast with hold | hnew
      · rw [List.getElem?_append_left hold]
      · rw [List.getElem?_eq_none (by omega),
          List.getElem?_eq_none (by simp only [List.length_append,List.length_singleton]; omega)]

theorem Holds.pop (h : ring.Holds (a :: queue)) :
    ∃ ring', ring.pop = some (a,ring') ∧ ring'.Holds queue ∧ ring'.slots.length = ring.slots.length := by
  have hsize := Nat.zero_lt_of_lt h.head
  have hfits := h.fits
  rw [List.length_cons] at hfits
  have hfirst := h.slot 0 hsize
  rw [Nat.add_zero,Nat.mod_eq_of_lt h.head] at hfirst
  refine ⟨⟨ring.slots.set ring.head none,(ring.head + 1) % ring.slots.length,ring.count - 1⟩,?_,?_,by simp⟩
  · simp only [Ring.pop,hfirst,List.getElem?_cons_zero]
  · refine ⟨by simpa using Nat.mod_lt _ hsize,?_,?_,?_⟩
    · rw [h.count,List.length_cons,Nat.add_sub_cancel]
    · simp only [List.length_set]
      omega
    · intro i hi
      simp only [List.length_set] at hi ⊢
      rw [Nat.mod_add_mod,List.getElem?_set]
      by_cases hlast : i + 1 < ring.slots.length
      · have hslot := h.slot (i + 1) hlast
        rw [← Nat.add_assoc,Nat.add_right_comm] at hslot
        rw [if_neg,hslot,List.getElem?_cons_succ]
        intro heq
        have hwrapped : (ring.head + 0) % ring.slots.length = (ring.head + (i + 1)) % ring.slots.length := by
          rw [Nat.add_zero,Nat.mod_eq_of_lt h.head,← Nat.add_assoc,Nat.add_right_comm]
          exact heq
        have hzero := offset_inj hsize hlast hwrapped
        omega
      · have hend : ring.head + 1 + i = ring.head + ring.slots.length := by omega
        rw [hend,Nat.add_mod_right,Nat.mod_eq_of_lt h.head,if_pos rfl,if_pos h.head,
          List.getElem?_eq_none (by omega)]

/-- The occupied slots are the `count` ones from the head on. -/
theorem Holds.occupied_iff (h : ring.Holds queue) {j : ℕ} (hj : j < ring.slots.length) :
    (∃ a, ring.slots[j]? = some (some a)) ↔ ∃ i < ring.count, j = (ring.head + i) % ring.slots.length := by
  obtain ⟨i,hi,rfl⟩ := exists_offset h.head hj
  rw [h.slot i hi,h.count]
  constructor
  · rintro ⟨a,ha⟩
    exact ⟨i,(List.getElem?_eq_some_iff.mp (Option.some.inj ha)).1,rfl⟩
  · rintro ⟨k,hk,heq⟩
    obtain rfl := offset_inj hi (hk.trans_le h.fits) heq
    exact ⟨queue[i],by rw [List.getElem?_eq_getElem hk]⟩

/-- The slots are the elements of the queue and empty ones, in some order. -/
theorem Holds.slots_perm (h : ring.Holds queue) :
    ring.slots.Perm (queue.map some ++ List.replicate (ring.slots.length - queue.length) none) := by
  have hrotate : ring.slots.rotate ring.head =
      queue.map some ++ List.replicate (ring.slots.length - queue.length) none := by
    apply List.ext_getElem?
    intro i
    by_cases hi : i < ring.slots.length
    · rw [List.getElem?_rotate hi,Nat.add_comm,h.slot i hi,List.getElem?_append,List.length_map,
        List.getElem?_map]
      split
      · rename_i hin
        rw [List.getElem?_eq_getElem hin]
        rfl
      · rw [List.getElem?_eq_none (by omega),List.getElem?_replicate,if_pos (by omega)]
    · have hfits := h.fits
      rw [List.getElem?_eq_none (by simpa using hi),List.getElem?_eq_none]
      simp only [List.length_append,List.length_map,List.length_replicate]
      omega
  rw [← hrotate]
  exact (ring.slots.rotate_perm ring.head).symm

theorem Holds.occupied (h : ring.Holds queue) : ring.occupied = queue.length := by
  have hperm := (h.slots_perm.filter Option.isSome).length_eq
  have hall : (queue.map some).filter Option.isSome = queue.map some :=
    List.filter_eq_self.mpr fun slot hslot => by
      obtain ⟨a,-,rfl⟩ := List.mem_map.mp hslot
      rfl
  rw [List.filter_append,hall,List.filter_replicate] at hperm
  simpa [Ring.occupied] using hperm

/-- What is read off the occupied slots is read off the queue. -/
theorem Holds.filterMap_perm {β : Type*} (h : ring.Holds queue) (f : α → β) :
    (ring.slots.filterMap (Option.map f)).Perm (queue.map f) := by
  have hperm := h.slots_perm.filterMap (Option.map f)
  have hqueue : (queue.map some).filterMap (Option.map f) = queue.map f := by
    simp [List.filterMap_map]
  rw [List.filterMap_append,hqueue] at hperm
  have hnone : (List.replicate (ring.slots.length - queue.length) none).filterMap (Option.map f) = [] := by
    simp
  rwa [hnone,List.append_nil] at hperm

end Ring
end SpareNode
