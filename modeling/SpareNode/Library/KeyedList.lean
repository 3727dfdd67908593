import Mathlib.Data.List.Nodup

/-! # Lists keyed by a field

A list whose elements have distinct keys is a finite map. The operations below act on
the first element of a key, as linear searches do; on keyed lists that element is the
only one, so each operation is described by what it does to membership.
-/
namespace KeyedList
variable {α κ : Type*} [DecidableEq κ] (key : α → κ)

def Keyed (xs : List α) : Prop := (xs.map key).Nodup

def lookup (k : κ) (xs : List α) : Option α := xs.find? (fun x => key x = k)

/-- Rewrites the first element of the key in place. -/
def adjust (k : κ) (f : α → α) : List α → List α
  | [] => []
  | x :: xs => if key x = k then f x :: xs else x :: adjust k f xs

def remove (k : κ) (xs : List α) : List α := xs.eraseP (fun x => key x = k)

variable {key} {xs ys : List α} {x y : α} {k : κ}

omit [DecidableEq κ] in
theorem Keyed.eq (h : Keyed key xs) (hx : x ∈ xs) (hy : y ∈ xs) (hk : key x = key y) : x = y :=
  List.inj_on_of_nodup_map h hx hy hk

omit [DecidableEq κ] in
theorem Keyed.sublist (h : Keyed key xs) (hs : ys.Sublist xs) : Keyed key ys :=
  List.Nodup.sublist (hs.map key) h

omit [DecidableEq κ] in
theorem Keyed.head_ne (h : Keyed key (x :: xs)) : ∀ y ∈ xs, key y ≠ key x := by
  intro y hy heq
  exact (List.nodup_cons.mp h).1 (heq ▸ List.mem_map_of_mem hy)

omit [DecidableEq κ] in
theorem Keyed.tail (h : Keyed key (x :: xs)) : Keyed key xs := (List.nodup_cons.mp h).2

omit [DecidableEq κ] in
theorem Keyed.snoc (h : Keyed key xs) (hx : ∀ y ∈ xs, key y ≠ key x) : Keyed key (xs ++ [x]) := by
  unfold Keyed at h ⊢
  rw [List.map_append,List.nodup_append]
  refine ⟨h,by simp,?_⟩
  intro a ha b hb
  obtain ⟨y,hy,rfl⟩ := List.mem_map.mp ha
  have hb : b = key x := by simpa using hb
  rw [hb]
  exact hx y hy

theorem lookup_eq_none_iff : lookup key k xs = none ↔ ∀ y ∈ xs, key y ≠ k := by
  simp [lookup]

theorem Keyed.lookup_eq_some_iff (h : Keyed key xs) :
    lookup key k xs = some x ↔ x ∈ xs ∧ key x = k := by
  constructor
  · intro hx
    exact ⟨List.mem_of_find?_eq_some hx,by simpa using List.find?_some hx⟩
  · rintro ⟨hx,hk⟩
    cases hf : lookup key k xs with
    | none => exact absurd hk (lookup_eq_none_iff.mp hf x hx)
    | some y =>
      have hy : key y = k := by simpa using List.find?_some hf
      rw [h.eq (List.mem_of_find?_eq_some hf) hx (hy.trans hk.symm)]

theorem adjust_keys {f : α → α} (hf : ∀ x, key (f x) = key x) :
    (adjust key k f xs).map key = xs.map key := by
  induction xs with
  | nil => rfl
  | cons x xs ih =>
    rw [adjust]
    split
    · simp [hf]
    · simp [ih]

theorem Keyed.mem_adjust {f : α → α} (h : Keyed key xs) :
    y ∈ adjust key k f xs ↔ (y ∈ xs ∧ key y ≠ k) ∨ ∃ x ∈ xs, key x = k ∧ y = f x := by
  induction xs with
  | nil => simp [adjust]
  | cons x xs ih =>
    have hfresh := h.head_ne
    rw [adjust]
    split
    · rename_i hx
      subst hx
      simp only [List.mem_cons]
      constructor
      · rintro (rfl | hy)
        · exact Or.inr ⟨x,Or.inl rfl,rfl,rfl⟩
        · exact Or.inl ⟨Or.inr hy,hfresh y hy⟩
      · rintro (⟨rfl | hy,hne⟩ | ⟨z,rfl | hz,hk,rfl⟩)
        · exact absurd rfl hne
        · exact Or.inr hy
        · exact Or.inl rfl
        · exact absurd hk (hfresh z hz)
    · rename_i hx
      rw [List.mem_cons,ih h.tail]
      simp only [List.mem_cons]
      constructor
      · rintro (rfl | ⟨hy,hne⟩ | ⟨z,hz,hk,rfl⟩)
        · exact Or.inl ⟨Or.inl rfl,hx⟩
        · exact Or.inl ⟨Or.inr hy,hne⟩
        · exact Or.inr ⟨z,Or.inr hz,hk,rfl⟩
      · rintro (⟨rfl | hy,hne⟩ | ⟨z,rfl | hz,hk,rfl⟩)
        · exact Or.inl rfl
        · exact Or.inr (Or.inl ⟨hy,hne⟩)
        · exact absurd hk hx
        · exact Or.inr (Or.inr ⟨z,hz,hk,rfl⟩)

/-- Erasing the sole owner of a key leaves no element of that key. -/
theorem Keyed.remove_ne (h : Keyed key xs) : ∀ y ∈ remove key k xs, key y ≠ k := by
  unfold remove
  induction xs with
  | nil => simp
  | cons x xs ih =>
    intro y hy
    by_cases hx : key x = k
    · rw [List.eraseP_cons_of_pos (by simpa using hx)] at hy
      exact hx ▸ h.head_ne y hy
    · rw [List.eraseP_cons_of_neg (by simpa using hx)] at hy
      rcases List.mem_cons.mp hy with rfl | hy
      · exact hx
      · exact ih h.tail y hy

theorem Keyed.mem_remove (h : Keyed key xs) : y ∈ remove key k xs ↔ y ∈ xs ∧ key y ≠ k := by
  constructor
  · intro hy
    exact ⟨List.mem_of_mem_eraseP hy,h.remove_ne y hy⟩
  · rintro ⟨hy,hk⟩
    exact (List.mem_eraseP_of_neg (by simpa using hk)).mpr hy

omit [DecidableEq κ] in
theorem Keyed.nodup (h : Keyed key xs) : xs.Nodup := List.Nodup.of_map key h

end KeyedList
