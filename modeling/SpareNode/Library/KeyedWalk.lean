import Mathlib.Data.List.Nodup

/-! # Walks over items of different kinds

Each item sets what belongs to its kind. A walk remembers the kinds it has met and treats an item of one of
these apart. Where every kind occurs once the walk is a fold, and a field that only one kind sets holds
what the item of that kind has put there.
-/
namespace KeyedWalk
variable {σ δ κ α : Type*} (kind : δ → κ) (step repeated : σ → δ → σ)

/-- No kind occurs twice among the items and the kinds met before. -/
def Single (items : List δ) (encountered : List κ) : Prop :=
  (items.map kind).Nodup ∧ ∀ item ∈ items, kind item ∉ encountered

variable {kind} {items : List δ} {encountered : List κ}

theorem single_nil : Single kind [] encountered := ⟨List.nodup_nil,nofun⟩

theorem single_cons {item : δ} : Single kind (item :: items) encountered ↔
    kind item ∉ encountered ∧ Single kind items (kind item :: encountered) := by
  simp only [Single,List.map_cons,List.nodup_cons,List.mem_map,List.mem_cons,forall_eq_or_imp,not_or,not_exists,not_and]
  constructor
  · rintro ⟨⟨hother,hnodup⟩,hitem,hitems⟩
    exact ⟨hitem,hnodup,fun other hmem => ⟨hother other hmem,hitems other hmem⟩⟩
  · rintro ⟨hitem,hnodup,hitems⟩
    exact ⟨⟨fun other hmem => (hitems other hmem).1,hnodup⟩,hitem,fun other hmem => (hitems other hmem).2⟩

theorem single_start : Single kind items [] ↔ (items.map kind).Nodup :=
  and_iff_left fun _ _ => List.not_mem_nil

variable [DecidableEq κ]

variable (kind) in
def walk : List δ → (encountered : List κ) → σ → σ
  | [],_,s => s
  | item :: rest,encountered,s =>
    if kind item ∈ encountered then walk rest encountered (repeated s item)
    else walk rest (kind item :: encountered) (step s item)

variable {step repeated}

theorem walk_eq_foldl (h : Single kind items encountered) (s : σ) :
    walk kind step repeated items encountered s = items.foldl step s := by
  induction items generalizing encountered s with
  | nil => rfl
  | cons item items ih =>
    rw [single_cons] at h
    rw [walk,if_neg h.1,List.foldl_cons,ih h.2]

/-- The walk ends clean when no kind is repeated and every item passes. -/
theorem walk_clean_iff (Clean : σ → Prop) (Passes : δ → Prop)
    (hstep : ∀ s item, Clean (step s item) ↔ Clean s ∧ Passes item) (hrepeated : ∀ s item, ¬Clean (repeated s item)) (s : σ) :
    Clean (walk kind step repeated items encountered s) ↔
      Clean s ∧ Single kind items encountered ∧ ∀ item ∈ items, Passes item := by
  induction items generalizing encountered s with
  | nil => exact (and_iff_left ⟨single_nil,nofun⟩).symm
  | cons item items ih =>
    rw [walk,single_cons,List.forall_mem_cons]
    by_cases hmem : kind item ∈ encountered
    · rw [if_pos hmem,ih]
      constructor
      · exact fun h => absurd h.1 (hrepeated s item)
      · exact fun h => absurd hmem h.2.1.1
    · rw [if_neg hmem,ih,hstep]
      tauto

/-- A field after the fold: what the item of its kind has set, or the first value. -/
theorem foldl_field (field : σ → α) {key : κ} (Reads : δ → α → Prop) {Passes : δ → Prop}
    (hset : ∀ s item, Passes item → kind item = key → Reads item (field (step s item)))
    (hkeep : ∀ s item, kind item ≠ key → field (step s item) = field s)
    (hsingle : (items.map kind).Nodup) (hpasses : ∀ item ∈ items, Passes item) (s : σ) :
    (∃ item ∈ items, kind item = key ∧ Reads item (field (items.foldl step s))) ∨
      field (items.foldl step s) = field s ∧ ∀ item ∈ items, kind item ≠ key := by
  induction items generalizing s with
  | nil => exact Or.inr ⟨rfl,nofun⟩
  | cons item items ih =>
    rw [List.map_cons,List.nodup_cons] at hsingle
    rw [List.forall_mem_cons] at hpasses
    rw [List.foldl_cons]
    rcases ih hsingle.2 hpasses.2 (step s item) with ⟨other,hmem,hkind,hreads⟩ | ⟨hfield,hnone⟩
    · exact Or.inl ⟨other,List.mem_cons_of_mem item hmem,hkind,hreads⟩
    · by_cases hkind : kind item = key
      · exact Or.inl ⟨item,List.mem_cons_self,hkind,hfield ▸ hset s item hpasses.1 hkind⟩
      · exact Or.inr ⟨hfield.trans (hkeep s item hkind),List.forall_mem_cons.mpr ⟨hkind,hnone⟩⟩

theorem foldl_keeps (field : σ → α) (hkeep : ∀ s item, field (step s item) = field s) (s : σ) :
    field (items.foldl step s) = field s := by
  induction items generalizing s with
  | nil => rfl
  | cons item items ih => rw [List.foldl_cons,ih,hkeep]

end KeyedWalk
