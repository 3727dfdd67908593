import Mathlib.Data.List.DropRight
import SpareNode.Foundation.Bytes

/-! # ASCII classes of the HTTP grammar

Every classifier works on single bytes and never consults a locale. A byte above
127 is in no letter or digit range, whether `char` is signed or not.
-/
namespace SpareNode.Http

def asciiLower (b : Byte) : Byte :=
  if char 'A' ≤ b ∧ b ≤ char 'Z' then b + (char 'a' - char 'A') else b

def asciiCaseInsensitiveEqual (left right : Bytes) : Bool :=
  left.length == right.length &&
    (left.zip right).all (fun p => asciiLower p.1 == asciiLower p.2)

def isAsciiDigit (b : Byte) : Bool := char '0' ≤ b && b ≤ char '9'

def isAsciiHexadecimalDigit (b : Byte) : Bool :=
  isAsciiDigit b || (char 'A' ≤ b && b ≤ char 'F') || (char 'a' ≤ b && b ≤ char 'f')

def isAsciiLetter (b : Byte) : Bool :=
  (char 'A' ≤ b && b ≤ char 'Z') || (char 'a' ≤ b && b ≤ char 'z')

def isHttpTokenCharacter (b : Byte) : Bool :=
  isAsciiDigit b || isAsciiLetter b || (ascii "!#$%&'*+-.^_`|~").contains b

def isHttpFieldValueByte (b : Byte) : Bool := b == 9 || (0x20 ≤ b && b != 0x7F)

/-- The SP and HTAB bytes that HTTP calls optional or bad whitespace. -/
def isOptionalWhitespace (b : Byte) : Bool := b == char ' ' || b == 9

def trimOptionalWhitespace (value : Bytes) : Bytes :=
  (value.dropWhile isOptionalWhitespace).rdropWhile isOptionalWhitespace

def IsToken (s : Bytes) : Prop := s ≠ [] ∧ s.all isHttpTokenCharacter = true

theorem asciiCaseInsensitiveEqual_iff {left right : Bytes} :
    asciiCaseInsensitiveEqual left right = true ↔
      left.map asciiLower = right.map asciiLower := by
  induction left generalizing right with
  | nil => cases right <;> simp [asciiCaseInsensitiveEqual]
  | cons a left ih =>
    cases right with
    | nil => simp [asciiCaseInsensitiveEqual]
    | cons b right =>
      simp only [asciiCaseInsensitiveEqual] at ih
      simp only [asciiCaseInsensitiveEqual,List.length_cons,List.zip_cons_cons,List.all_cons,
        List.map_cons,List.cons.injEq,← ih,Bool.and_eq_true,beq_iff_eq]
      constructor
      · rintro ⟨hl,ha,hz⟩
        exact ⟨ha,by omega,hz⟩
      · rintro ⟨ha,hl,hz⟩
        exact ⟨by omega,ha,hz⟩

/-- No byte of a class whose classifier rejects `c` is `c`. -/
theorem not_mem_of_all {p : Byte → Bool} {s : Bytes} {c : Byte} (h : s.all p = true)
    (hc : p c = false) : c ∉ s := by
  intro hm
  have := List.all_eq_true.mp h c hm
  simp [hc] at this

theorem not_token_of_whitespace {b : Byte} (h : isOptionalWhitespace b = true) :
    isHttpTokenCharacter b = false := by
  rcases (by simpa [isOptionalWhitespace] using h : b = char ' ' ∨ b = 9) with rfl | rfl <;> decide

theorem not_whitespace_of_token {b : Byte} (h : isHttpTokenCharacter b = true) :
    isOptionalWhitespace b = false := by
  by_contra hw
  rw [not_token_of_whitespace (by simpa using hw)] at h
  simp at h

/-- A text neither starting nor ending with optional whitespace. -/
def Trimmed (v : Bytes) : Prop :=
  (∀ x ∈ v.head?, isOptionalWhitespace x = false) ∧
  (∀ x ∈ v.getLast?, isOptionalWhitespace x = false)

theorem rdropWhile_append_of {p : Byte → Bool} {a b : Bytes} (hb : b.all p = true)
    (ha : ∀ x ∈ a.getLast?, p x = false) : (a ++ b).rdropWhile p = a := by
  have hr : b.reverse.all p = true := by simpa using hb
  rw [List.rdropWhile,List.reverse_append,dropWhile_append_of hr (by simpa using ha),
    List.reverse_reverse]

/-- Optional whitespace around a trimmed value is exactly what trimming removes. -/
theorem trimOptionalWhitespace_append {lead v trail : Bytes}
    (hl : lead.all isOptionalWhitespace = true) (ht : trail.all isOptionalWhitespace = true)
    (hv : Trimmed v) : trimOptionalWhitespace (lead ++ v ++ trail) = v := by
  rw [trimOptionalWhitespace,List.append_assoc]
  cases v with
  | nil =>
    have ha : (lead ++ trail).all isOptionalWhitespace = true := by simp [hl,ht]
    have hd := dropWhile_append_of (b := []) ha (by simp)
    rw [List.append_nil] at hd
    rw [List.nil_append,hd]
    rfl
  | cons x v =>
    rw [dropWhile_append_of hl (by simpa using hv.1),rdropWhile_append_of ht hv.2]

/-- Every text is a trimmed value between two runs of optional whitespace. -/
theorem trimOptionalWhitespace_spec (s : Bytes) :
    ∃ lead trail, s = lead ++ trimOptionalWhitespace s ++ trail ∧
      lead.all isOptionalWhitespace = true ∧ trail.all isOptionalWhitespace = true ∧
      Trimmed (trimOptionalWhitespace s) := by
  let d := s.dropWhile isOptionalWhitespace
  have hd : d = d.rdropWhile isOptionalWhitespace ++ d.rtakeWhile isOptionalWhitespace := by
    have h := List.takeWhile_append_dropWhile (p := isOptionalWhitespace) (l := d.reverse)
    rw [List.rdropWhile,List.rtakeWhile,← List.reverse_append,h,List.reverse_reverse]
  refine ⟨s.takeWhile isOptionalWhitespace,d.rtakeWhile isOptionalWhitespace,?_,
    List.all_takeWhile,?_,?_,?_⟩
  · rw [trimOptionalWhitespace,List.append_assoc,← hd]
    exact List.takeWhile_append_dropWhile.symm
  · rw [List.rtakeWhile,List.all_reverse]
    exact List.all_takeWhile
  · intro x hx
    apply head_dropWhile_self isOptionalWhitespace s x
    have hp : trimOptionalWhitespace s <+: d := List.rdropWhile_prefix ..
    obtain ⟨t,ht⟩ := hp
    change x ∈ d.head?
    rw [← ht]
    cases hv : trimOptionalWhitespace s with
    | nil => simp [hv] at hx
    | cons y v => simpa [hv] using hx
  · intro x hx
    have h := head_dropWhile_self isOptionalWhitespace d.reverse x
    apply h
    change x ∈ (d.rdropWhile isOptionalWhitespace).getLast? at hx
    rw [List.rdropWhile,List.getLast?_reverse] at hx
    exact hx

end SpareNode.Http
