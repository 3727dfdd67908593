import Mathlib.Data.List.GetD
import Mathlib.Tactic

/-! # The civil calendar

A day is a number of days since the start of 1970 and, the other way, a year, a month and a day of the month of the
proleptic Gregorian calendar. The two name the same days, in the same order.
-/
namespace Calendar

/-- The stretch in which the `n`th of consecutive unit steps lies, and the steps before it in that stretch. -/
def locate : List ℕ → ℕ → ℕ × ℕ
  | [],n => (0,n)
  | length :: lengths,n =>
    if n < length then (0,n) else ((locate lengths (n - length)).1 + 1,(locate lengths (n - length)).2)

theorem locate_lt {lengths : List ℕ} {n : ℕ} (h : n < lengths.sum) :
    (locate lengths n).1 < lengths.length ∧ (locate lengths n).2 < lengths.getD (locate lengths n).1 0 := by
  induction lengths generalizing n with
  | nil => cases h
  | cons length lengths ih =>
    rw [List.sum_cons] at h
    unfold locate
    split
    · rename_i hlt
      exact ⟨by simp,hlt⟩
    · obtain ⟨hfst,hsnd⟩ := ih (n := n - length) (by omega)
      exact ⟨by simpa using hfst,by simpa using hsnd⟩

theorem locate_sum (lengths : List ℕ) (n : ℕ) :
    (lengths.take (locate lengths n).1).sum + (locate lengths n).2 = n := by
  induction lengths generalizing n with
  | nil => simp [locate]
  | cons length lengths ih =>
    unfold locate
    split
    · simp
    · have h := ih (n - length)
      rw [List.take_succ_cons,List.sum_cons]
      omega

/-- The steps before a later stretch are past an earlier one. -/
theorem take_sum_add_lt {lengths : List ℕ} {i j r : ℕ} (hij : i < j) (h : r < lengths.getD i 0) :
    (lengths.take i).sum + r < (lengths.take j).sum := by
  induction lengths generalizing i j with
  | nil => simp at h
  | cons length lengths ih =>
    obtain ⟨j,rfl⟩ := Nat.exists_eq_add_of_lt hij
    cases i with
    | zero =>
      rw [List.getD_cons_zero] at h
      rw [List.take_zero,List.take_succ_cons,List.sum_cons,List.sum_nil]
      omega
    | succ i =>
      rw [List.getD_cons_succ] at h
      have hlater := ih (i := i) (j := i + j + 1) (by omega) h
      rw [show i + 1 + j + 1 = (i + j + 1) + 1 by omega,List.take_succ_cons,List.take_succ_cons,List.sum_cons,
        List.sum_cons]
      omega

def IsLeap (year : ℤ) : Prop := year % 4 = 0 ∧ (year % 100 ≠ 0 ∨ year % 400 = 0)

instance : DecidablePred IsLeap := fun year => inferInstanceAs (Decidable (year % 4 = 0 ∧ (_ ∨ _)))

def monthLengths (year : ℤ) : List ℕ := [31,if IsLeap year then 29 else 28,31,30,31,30,31,31,30,31,30,31]

def yearStart (year : ℤ) : ℤ := 365 * year + (year + 3) / 4 - (year + 99) / 100 + (year + 399) / 400 - 719528

theorem yearStart_succ (year : ℤ) : yearStart (year + 1) = yearStart year + (monthLengths year).sum := by
  unfold yearStart monthLengths
  by_cases h : IsLeap year
  · rw [if_pos h]
    unfold IsLeap at h
    simp only [List.sum_cons,List.sum_nil]
    push_cast
    omega
  · rw [if_neg h]
    unfold IsLeap at h
    simp only [List.sum_cons,List.sum_nil]
    push_cast
    omega

theorem yearStart_le {a b : ℤ} (h : a ≤ b) : yearStart a ≤ yearStart b := by
  unfold yearStart
  omega

/-- The year of a day: a mean year is 146097 days in 400, which is off by one at most. -/
def yearOf (day : ℤ) : ℤ :=
  let estimate := 400 * day / 146097 + 1970
  if day < yearStart estimate then estimate - 1 else
  if yearStart (estimate + 1) ≤ day then estimate + 1 else estimate

theorem yearOf_bounds (day : ℤ) : yearStart (yearOf day) ≤ day ∧ day < yearStart (yearOf day + 1) := by
  unfold yearOf
  dsimp only
  split
  · rename_i h
    refine ⟨?_,by rwa [Int.sub_add_cancel]⟩
    unfold yearStart
    omega
  · rename_i hlow
    split
    · rename_i h
      refine ⟨h,?_⟩
      unfold yearStart
      omega
    · rename_i hhigh
      exact ⟨not_lt.mp hlow,not_le.mp hhigh⟩

/-- The days of the years from one up to another. -/
theorem yearOf_mem {a b day : ℤ} : a ≤ yearOf day ∧ yearOf day < b ↔ yearStart a ≤ day ∧ day < yearStart b := by
  obtain ⟨hstart,hend⟩ := yearOf_bounds day
  constructor
  · rintro ⟨ha,hb⟩
    have hlow := yearStart_le ha
    have hhigh := yearStart_le (show yearOf day + 1 ≤ b by omega)
    exact ⟨by omega,by omega⟩
  · rintro ⟨ha,hb⟩
    constructor
    · by_contra hlt
      have := yearStart_le (show yearOf day + 1 ≤ a by omega)
      omega
    · by_contra hlt
      have := yearStart_le (show b ≤ yearOf day by omega)
      omega

@[ext] structure Date where
  year : ℤ
  month : ℕ
  day : ℕ
  month_pos : 0 < month
  day_pos : 0 < day
  day_le : day ≤ (monthLengths year).getD (month - 1) 0

def Date.dayNumber (d : Date) : ℤ :=
  yearStart d.year + (((monthLengths d.year).take (d.month - 1)).sum + (d.day - 1) : ℕ)

theorem offset_lt (day : ℤ) : (day - yearStart (yearOf day)).toNat < (monthLengths (yearOf day)).sum := by
  obtain ⟨hstart,hend⟩ := yearOf_bounds day
  rw [yearStart_succ] at hend
  omega

def dateOf (day : ℤ) : Date where
  year := yearOf day
  month := (locate (monthLengths (yearOf day)) (day - yearStart (yearOf day)).toNat).1 + 1
  day := (locate (monthLengths (yearOf day)) (day - yearStart (yearOf day)).toNat).2 + 1
  month_pos := Nat.succ_pos _
  day_pos := Nat.succ_pos _
  day_le := (locate_lt (offset_lt day)).2

@[simp] theorem dateOf_year (day : ℤ) : (dateOf day).year = yearOf day := rfl

theorem Date.month_le (d : Date) : d.month ≤ 12 := by
  have hlength : (monthLengths d.year).length = 12 := rfl
  have hle := d.day_le
  by_contra hlt
  rw [List.getD_eq_default _ _ (by omega)] at hle
  exact absurd d.day_pos (by omega)

theorem Date.day_le_31 (d : Date) : d.day ≤ 31 := by
  have hall : ∀ length ∈ monthLengths d.year, length ≤ 31 := by
    unfold monthLengths
    split <;> decide
  refine d.day_le.trans ?_
  rw [List.getD_eq_getElem _ _ (show d.month - 1 < 12 by have := d.month_le; have := d.month_pos; omega)]
  exact hall _ (List.getElem_mem _)

theorem Date.day_lt (d : Date) : d.day - 1 < (monthLengths d.year).getD (d.month - 1) 0 := by
  have hle := d.day_le
  have hpos := d.day_pos
  omega

theorem Date.dayNumber_bounds (d : Date) :
    yearStart d.year ≤ d.dayNumber ∧ d.dayNumber < yearStart (d.year + 1) := by
  have hlt := take_sum_add_lt (show d.month - 1 < 12 by have := d.month_le; have := d.month_pos; omega) d.day_lt
  rw [yearStart_succ]
  rw [List.take_of_length_le (show (monthLengths d.year).length ≤ 12 from le_rfl)] at hlt
  unfold Date.dayNumber
  omega

theorem dayNumber_dateOf (day : ℤ) : (dateOf day).dayNumber = day := by
  obtain ⟨hstart,hend⟩ := yearOf_bounds day
  have hsum := locate_sum (monthLengths (yearOf day)) (day - yearStart (yearOf day)).toNat
  unfold Date.dayNumber dateOf
  dsimp only
  rw [Nat.add_sub_cancel,Nat.add_sub_cancel,hsum]
  omega

theorem dateOf_injective {a b : ℤ} (h : dateOf a = dateOf b) : a = b := by
  rw [← dayNumber_dateOf a,h,dayNumber_dateOf]

/-- The order of dates: by year, then by month, then by day. -/
def Date.Before (d e : Date) : Prop :=
  d.year < e.year ∨ d.year = e.year ∧ (d.month < e.month ∨ d.month = e.month ∧ d.day < e.day)

theorem Date.Before.dayNumber_lt {d e : Date} (h : d.Before e) : d.dayNumber < e.dayNumber := by
  rcases h with hyear | ⟨hyear,hmonth | ⟨hmonth,hday⟩⟩
  · have hlow := d.dayNumber_bounds.2
    have hhigh := e.dayNumber_bounds.1
    have hle := yearStart_le (show d.year + 1 ≤ e.year by omega)
    omega
  · have hpos := d.month_pos
    have hlt := take_sum_add_lt (show d.month - 1 < e.month - 1 by omega) d.day_lt
    unfold Date.dayNumber
    rw [← hyear]
    omega
  · have hpos := d.day_pos
    unfold Date.dayNumber
    rw [← hyear,← hmonth]
    omega

theorem before_iff {a b : ℤ} : (dateOf a).Before (dateOf b) ↔ a < b := by
  constructor
  · intro h
    have hlt := h.dayNumber_lt
    rwa [dayNumber_dateOf,dayNumber_dateOf] at hlt
  · intro h
    have hcases : (dateOf a).Before (dateOf b) ∨ dateOf a = dateOf b ∨ (dateOf b).Before (dateOf a) := by
      unfold Date.Before
      rw [Date.ext_iff]
      omega
    rcases hcases with hbefore | heq | hafter
    · exact hbefore
    · exact absurd (dateOf_injective heq) h.ne
    · have hlt := hafter.dayNumber_lt
      rw [dayNumber_dateOf,dayNumber_dateOf] at hlt
      omega

end Calendar
