import Mathlib.Data.List.Basic
import Mathlib.Tactic

/-! # Sequential transducers that stop reading on their own

A transducer reads one symbol at a time, emits finitely many output symbols, and
never reads in a halted state. `run` reads as far as the machine allows; `Reads`
is the relation of a partial run that consumed exactly the given word. Whatever
way a driver cuts the input, its partial runs compose, and a partial run that
ends halted or out of input is the one run of the whole word.
-/
universe u v w

/-- One symbol is read per step, never in a halted state. -/
structure Transducer (σ : Type u) (α : Type v) (β : Type w) where
  halted : σ → Bool
  step : σ → α → σ × List β

namespace Transducer
variable {σ : Type u} {α : Type v} {β : Type w} (T : Transducer σ α β)

/-- Final state, unread suffix and output of reading as far as possible. -/
def run (s : σ) : List α → σ × List α × List β
  | [] => (s,[],[])
  | a :: rest =>
    if T.halted s then (s,a :: rest,[])
    else
      let r := run (T.step s a).1 rest
      (r.1,r.2.1,(T.step s a).2 ++ r.2.2)

/-- The machine takes one step on each symbol of the word and stops there. -/
inductive Reads : σ → List α → σ → List β → Prop
  | nil (s : σ) : Reads s [] s []
  | cons {s t : σ} {a : α} {word : List α} {out : List β} (hs : T.halted s = false)
      (ht : Reads (T.step s a).1 word t out) : Reads s (a :: word) t ((T.step s a).2 ++ out)

variable {T}

theorem Reads.trans {s t r : σ} {u v : List α} {o p : List β}
    (h : T.Reads s u t o) (k : T.Reads t v r p) : T.Reads s (u ++ v) r (o ++ p) := by
  induction h with
  | nil => exact k
  | cons hs _ ih =>
    rw [List.append_assoc]
    exact Reads.cons hs (ih k)

theorem Reads.single {s : σ} (a : α) (hs : T.halted s = false) :
    T.Reads s [a] (T.step s a).1 (T.step s a).2 := by
  simpa using Reads.cons hs (Reads.nil (T.step s a).1)

theorem Reads.snoc {s t : σ} {u : List α} {o : List β} (h : T.Reads s u t o) (a : α)
    (ht : T.halted t = false) :
    T.Reads s (u ++ [a]) (T.step t a).1 (o ++ (T.step t a).2) :=
  h.trans (Reads.single a ht)

/-- A nonempty partial run starts in a state that still reads. -/
theorem Reads.halted_nil {s t : σ} {u : List α} {o : List β} (h : T.Reads s u t o)
    (hs : T.halted s = true) : u = [] ∧ t = s ∧ o = [] := by
  cases h with
  | nil => exact ⟨rfl,rfl,rfl⟩
  | cons hn _ => simp [hs] at hn

/-- A partial run passes through the state reached on each initial segment. -/
theorem Reads.split {s t : σ} {u v : List α} {o : List β} (h : T.Reads s (u ++ v) t o) :
    ∃ m p q, T.Reads s u m p ∧ T.Reads m v t q ∧ o = p ++ q := by
  induction u generalizing s o with
  | nil => exact ⟨s,[],o,Reads.nil s,h,rfl⟩
  | cons a u ih =>
    cases h with
    | cons hs h =>
      obtain ⟨m,p,q,hp,hq,rfl⟩ := ih h
      exact ⟨m,_,q,Reads.cons hs hp,hq,(List.append_assoc _ _ _).symm⟩

/-- A property kept by every step of a reading machine holds after a partial run. -/
theorem Reads.invariant {P : σ → Prop}
    (hstep : ∀ s a, T.halted s = false → P s → P (T.step s a).1)
    {s t : σ} {u : List α} {o : List β} (h : T.Reads s u t o) (hs : P s) : P t := by
  induction h with
  | nil => exact hs
  | cons hn _ ih => exact ih (hstep _ _ hn hs)

/-- The full run is a partial run that ended halted or out of input. -/
theorem run_reads (s : σ) (word : List α) :
    ∃ u, word = u ++ (T.run s word).2.1 ∧ T.Reads s u (T.run s word).1 (T.run s word).2.2 ∧
      (T.halted (T.run s word).1 = true ∨ (T.run s word).2.1 = []) := by
  induction word generalizing s with
  | nil => exact ⟨[],rfl,Reads.nil s,Or.inr rfl⟩
  | cons a word ih =>
    cases hs : T.halted s with
    | true => exact ⟨[],by simp [run,hs],by simpa [run,hs] using Reads.nil s,by simp [run,hs]⟩
    | false =>
      obtain ⟨u,hu,hr,hend⟩ := ih (T.step s a).1
      refine ⟨a :: u,?_,?_,?_⟩
      · simpa [run,hs] using hu
      · simpa [run,hs] using Reads.cons hs hr
      · simpa [run,hs] using hend

/-- Two maximal partial runs of one word are the same run, wherever they stopped. -/
theorem Reads.maximal {s t t' : σ} {u u' v v' : List α} {o o' : List β}
    (h : T.Reads s u t o) (k : T.Reads s u' t' o') (hw : u ++ v = u' ++ v')
    (ht : T.halted t = true ∨ v = []) (ht' : T.halted t' = true ∨ v' = []) :
    t = t' ∧ u = u' ∧ o = o' := by
  induction h generalizing u' o' with
  | nil s =>
    cases k with
    | nil => exact ⟨rfl,rfl,rfl⟩
    | cons hs k =>
      rcases ht with h | h
      · simp [h] at hs
      · simp [h] at hw
  | cons hs h ih =>
    cases k with
    | nil =>
      rcases ht' with h | h
      · simp [h] at hs
      · simp [h] at hw
    | cons hs' k =>
      obtain ⟨ha,hrest⟩ := List.cons.inj hw
      subst ha
      obtain ⟨rfl,rfl,rfl⟩ := ih k hrest ht
      exact ⟨rfl,rfl,rfl⟩

/-- A maximal partial run computes `run`. -/
theorem Reads.run_eq {s t : σ} {u v : List α} {o : List β} (h : T.Reads s u t o)
    (ht : T.halted t = true ∨ v = []) : T.run s (u ++ v) = (t,v,o) := by
  obtain ⟨u',hu,hr,hend⟩ := run_reads (T := T) s (u ++ v)
  obtain ⟨h1,h2,h3⟩ := h.maximal hr hu ht hend
  have hv : v = (T.run s (u ++ v)).2.1 := by
    rw [← h2] at hu
    exact List.append_cancel_left hu
  exact Prod.ext h1.symm (Prod.ext hv.symm h3.symm)

/-- A full run passes through the end of every partial run. -/
theorem Reads.run_append {s t : σ} {u : List α} {o : List β} (h : T.Reads s u t o) (v : List α) :
    T.run s (u ++ v) = ((T.run t v).1,(T.run t v).2.1,o ++ (T.run t v).2.2) := by
  obtain ⟨w,hw,hr,hend⟩ := run_reads (T := T) t v
  have hall := (h.trans hr).run_eq hend
  rwa [List.append_assoc,← hw] at hall

/-- No partial run goes past a point where the machine halts. -/
theorem Reads.length_le_of_halted {s t : σ} {u v x y : List α} {o : List β} (h : T.Reads s u t o)
    (hw : u ++ v = x ++ y) (hx : T.halted (T.run s x).1 = true) : u.length ≤ x.length := by
  by_contra hlt
  obtain ⟨z,rfl⟩ : x <+: u :=
    List.prefix_of_prefix_length_le ⟨y,rfl⟩ (hw ▸ List.prefix_append u v) (by omega)
  obtain ⟨m,p,q,hp,hq,-⟩ := h.split
  have hm := hp.run_eq (v := []) (Or.inr rfl)
  rw [List.append_nil] at hm
  rw [hm] at hx
  obtain ⟨rfl,-,-⟩ := hq.halted_nil hx
  simp at hlt

theorem run_append_of_halted {s : σ} {word : List α} (tail : List α)
    (h : T.halted (T.run s word).1 = true) :
    T.run s (word ++ tail) =
      ((T.run s word).1,(T.run s word).2.1 ++ tail,(T.run s word).2.2) := by
  obtain ⟨u,hu,hr,-⟩ := run_reads (T := T) s word
  have he := hr.run_eq (v := (T.run s word).2.1 ++ tail) (Or.inl h)
  rw [← List.append_assoc,← hu] at he
  exact he

end Transducer
