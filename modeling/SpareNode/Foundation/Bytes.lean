import Mathlib.Data.List.Basic
import Mathlib.Tactic

/-! # Byte strings and the standard-library text operations

`std::string_view` is a list of bytes and `std::size_t` a natural number; the
places where the 64-bit range matters compare with `sizeMax` explicitly.
`fromChars` follows `std::from_chars` for unsigned targets: it takes the longest
run of digits, and reports no value when the run is empty or out of range.
-/
namespace SpareNode

abbrev Byte := UInt8
abbrev Bytes := List UInt8

/-- `(std::numeric_limits<std::size_t>::max)()` on the supported 64-bit targets. -/
def sizeMax : ℕ := 2 ^ 64 - 1

/-- The bytes of a `std::span`: their number is a `size_t`. -/
def Span := { bytes : Bytes // bytes.length ≤ sizeMax }

/-- The bytes of an ASCII literal of the source. -/
def ascii (s : String) : Bytes := s.toList.map (fun c => UInt8.ofNat c.toNat)

/-- The byte of an ASCII character literal of the source. -/
def char (c : Char) : Byte := UInt8.ofNat c.toNat

def cr : Byte := 13
def lf : Byte := 10
def crlf : Bytes := [cr,lf]

/-- A property of every byte is checked on the 256 of them. -/
theorem forall_byte {P : Byte → Prop} (h : ∀ i : Fin 256, P (UInt8.ofNat i.val)) (b : Byte) : P b := by
  have hb := h ⟨b.toNat,b.toNat_lt⟩
  rwa [UInt8.ofNat_toNat] at hb

/-- `std::string_view::find(char)`; no value stands for `npos`. -/
def find (c : Byte) (s : Bytes) : Option ℕ := s.idxOf? c

/-- `std::string_view::find(char, pos)`. -/
def findFrom (c : Byte) (s : Bytes) (pos : ℕ) : Option ℕ := (find c (s.drop pos)).map (· + pos)

/-- `std::string_view::substr(pos, count)`. -/
def substr (s : Bytes) (pos count : ℕ) : Bytes := (s.drop pos).take count

theorem find_eq_none_iff {c : Byte} {s : Bytes} : find c s = none ↔ c ∉ s := by
  simp [find]

theorem drop_cons_append (a b : Bytes) (c : Byte) : (a ++ c :: b).drop (a.length + 1) = b := by
  rw [← List.drop_drop,List.drop_left]
  rfl

/-- The first occurrence cuts the text where the byte has not occurred before. -/
theorem find_eq_some_iff {c : Byte} {s : Bytes} {i : ℕ} :
    find c s = some i ↔ ∃ a b, s = a ++ c :: b ∧ c ∉ a ∧ a.length = i := by
  induction s generalizing i with
  | nil => simp [find]
  | cons x s ih =>
    simp only [find] at ih
    rw [find,List.idxOf?_cons]
    by_cases hx : x = c
    · subst hx
      simp only [beq_self_eq_true,↓reduceIte,Option.some.injEq]
      constructor
      · rintro rfl
        exact ⟨[],s,rfl,by simp,rfl⟩
      · rintro ⟨a,b,hs,hc,rfl⟩
        cases a with
        | nil => rfl
        | cons y a =>
          obtain ⟨rfl,-⟩ := List.cons.inj hs
          simp at hc
    · have hb : (x == c) = false := by simpa using hx
      simp only [hb,Bool.false_eq_true,↓reduceIte,Option.map_eq_some_iff,ih]
      constructor
      · rintro ⟨j,⟨a,b,rfl,hc,rfl⟩,rfl⟩
        exact ⟨x :: a,b,rfl,by simp [hc,Ne.symm hx],rfl⟩
      · rintro ⟨a,b,hs,hc,rfl⟩
        cases a with
        | nil => exact absurd (List.cons.inj hs).1 hx
        | cons y a =>
          obtain ⟨rfl,rfl⟩ := List.cons.inj hs
          exact ⟨a.length,⟨a,b,rfl,fun h => hc (List.mem_cons_of_mem _ h),rfl⟩,rfl⟩

theorem find_append {c : Byte} {a : Bytes} (b : Bytes) (h : c ∉ a) :
    find c (a ++ c :: b) = some a.length :=
  find_eq_some_iff.mpr ⟨a,b,rfl,h,rfl⟩

theorem find_lt_length {c : Byte} {s : Bytes} {i : ℕ} (h : find c s = some i) : i < s.length := by
  obtain ⟨a,b,rfl,-,rfl⟩ := find_eq_some_iff.mp h
  simp

theorem find_split {c : Byte} {s : Bytes} {i : ℕ} (h : find c s = some i) :
    s = s.take i ++ c :: s.drop (i + 1) ∧ c ∉ s.take i := by
  obtain ⟨a,b,rfl,hc,rfl⟩ := find_eq_some_iff.mp h
  have hd : (a ++ c :: b).drop (a.length + 1) = b := by
    rw [← List.drop_drop,List.drop_left]
    rfl
  rw [List.take_left,hd]
  exact ⟨rfl,hc⟩

def digitValue (b : Byte) : Option ℕ :=
  if char '0' ≤ b ∧ b ≤ char '9' then some (b.toNat - (char '0').toNat)
  else if char 'A' ≤ b ∧ b ≤ char 'F' then some (b.toNat - (char 'A').toNat + 10)
  else if char 'a' ≤ b ∧ b ≤ char 'f' then some (b.toNat - (char 'a').toNat + 10)
  else none

theorem digitValue_lt {b : Byte} {v : ℕ} (h : digitValue b = some v) : v < 16 := by
  unfold digitValue at h
  split at h
  · rename_i hdigit
    have hhigh : b.toNat ≤ 57 := UInt8.le_iff_toNat_le.mp hdigit.2
    have hzero : (char '0').toNat = 48 := rfl
    obtain rfl := Option.some.inj h
    omega
  · split at h
    · rename_i hupper
      have hhigh : b.toNat ≤ 70 := UInt8.le_iff_toNat_le.mp hupper.2
      have hfirst : (char 'A').toNat = 65 := rfl
      obtain rfl := Option.some.inj h
      omega
    · split at h
      · rename_i hlower
        have hhigh : b.toNat ≤ 102 := UInt8.le_iff_toNat_le.mp hlower.2
        have hfirst : (char 'a').toNat = 97 := rfl
        obtain rfl := Option.some.inj h
        omega
      · cases h

/-- A byte is a digit of the base, which is at most sixteen everywhere in the source. -/
def isDigit (base : ℕ) (b : Byte) : Bool :=
  match digitValue b with
  | some v => decide (v < base)
  | none => false

/-- The number a digit string denotes, most significant digit first. -/
def numeral (base : ℕ) (digits : Bytes) : ℕ :=
  digits.foldl (fun value b => value * base + (digitValue b).getD 0) 0

/-- `std::from_chars` into an unsigned type whose largest value is `maximum`. -/
def fromChars (base maximum : ℕ) (s : Bytes) : Option (ℕ × Bytes) :=
  let digits := s.takeWhile (isDigit base)
  if digits = [] then none
  else if maximum < numeral base digits then none
  else some (numeral base digits,s.dropWhile (isDigit base))

theorem takeWhile_append_of {p : Byte → Bool} {a b : Bytes} (ha : a.all p = true)
    (hb : ∀ x ∈ b.head?, p x = false) : (a ++ b).takeWhile p = a := by
  rw [List.takeWhile_append_of_pos (by simpa using ha)]
  cases b with
  | nil => simp
  | cons x b => simp [hb x (by simp)]

theorem dropWhile_append_of {p : Byte → Bool} {a b : Bytes} (ha : a.all p = true)
    (hb : ∀ x ∈ b.head?, p x = false) : (a ++ b).dropWhile p = b := by
  rw [List.dropWhile_append_of_pos (by simpa using ha)]
  cases b with
  | nil => simp
  | cons x b => simp [hb x (by simp)]

theorem head_dropWhile_self (p : Byte → Bool) (s : Bytes) :
    ∀ x ∈ (s.dropWhile p).head?, p x = false := by
  intro x hx
  have h := List.head?_dropWhile_not p s
  simp only [Option.mem_def] at hx
  simpa [hx] using h

/-- What `fromChars` accepts: a nonempty digit run, in range, ending at a non-digit. -/
theorem fromChars_eq_some_iff {base maximum v : ℕ} {s r : Bytes} :
    fromChars base maximum s = some (v,r) ↔
      ∃ digits, s = digits ++ r ∧ digits ≠ [] ∧ digits.all (isDigit base) = true ∧
        (∀ x ∈ r.head?, isDigit base x = false) ∧ v = numeral base digits ∧ v ≤ maximum := by
  constructor
  · intro h
    simp only [fromChars] at h
    split at h
    · simp at h
    · next hne =>
      split at h
      · simp at h
      · next hle =>
        obtain ⟨rfl,rfl⟩ := Prod.mk.inj (Option.some.inj h)
        exact ⟨s.takeWhile (isDigit base),List.takeWhile_append_dropWhile.symm,hne,
          List.all_takeWhile,head_dropWhile_self _ s,rfl,by omega⟩
  · rintro ⟨digits,rfl,hne,hall,hr,rfl,hle⟩
    simp only [fromChars,takeWhile_append_of hall hr,dropWhile_append_of hall hr,if_neg hne]
    rw [if_neg (by omega)]

end SpareNode
