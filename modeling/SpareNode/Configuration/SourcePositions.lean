import Mathlib.Data.List.DropRight
import SpareNode.Configuration.StringLiterals
import SpareNode.Foundation.Utf8Encoding

/-! # Source positions

Where a cursor stands is decided by the text before it: the offset is its length, the line counts the
line breaks in it, the column counts the scalars after the last of them. Every advance of the lexer
keeps the location exact, and what trivia and literals may consist of is said here.
-/
namespace SpareNode.Configuration
open Utf8

def isLineBreak (b : Byte) : Bool := b = cr || b = lf

/-- CR, LF and CRLF each count once: a CRLF is counted at its LF. -/
def lineBreaks : Bytes → ℕ
  | [] => 0
  | b :: s => (if b = lf ∨ b = cr ∧ s.head? ≠ some lf then 1 else 0) + lineBreaks s

def currentLine (s : Bytes) : Bytes := s.rtakeWhile (fun b => !isLineBreak b)

/-- `location` lies between `before` and `rest`, in an input that begins with `mark`. -/
structure Located (mark before rest : Bytes) (location : SourceLocation) : Prop where
  byteOffset : location.byteOffset = mark.length + before.length
  line : location.line = 1 + lineBreaks before
  column : ∃ scalars, currentLine before = encodeAll scalars ∧ location.column = 1 + scalars.length
  whole : before.getLast? = some cr → rest.head? ≠ some lf

/-- The cursor moves over `x` and its location stays exact. -/
def Moves (x : Bytes) (c c' : Cursor) : Prop :=
  After x c c' ∧ ∀ mark before, Located mark before c.rest c.location →
    Located mark (before ++ x) c'.rest c'.location

theorem lineBreaks_append {s t : Bytes} (h : s.getLast? = some cr → t.head? ≠ some lf) :
    lineBreaks (s ++ t) = lineBreaks s + lineBreaks t := by
  induction s with
  | nil => simp [lineBreaks]
  | cons b s ih =>
    rw [List.cons_append,lineBreaks,lineBreaks]
    cases s with
    | nil =>
      simp only [List.nil_append,lineBreaks,List.head?_nil]
      by_cases hcr : b = cr
      · subst hcr
        have hhead : t.head? ≠ some lf := h rfl
        simp [hhead]
      · simp [hcr]
    | cons y s =>
      rw [ih (fun hlast => h (by rwa [List.getLast?_cons_cons])),List.cons_append,List.head?_cons,List.head?_cons,
        Nat.add_assoc]

theorem lineBreaks_none {s : Bytes} (h : ∀ b ∈ s, isLineBreak b = false) : lineBreaks s = 0 := by
  induction s with
  | nil => rfl
  | cons b s ih =>
    have hb := h b List.mem_cons_self
    simp only [isLineBreak,Bool.or_eq_false_iff,decide_eq_false_iff_not] at hb
    rw [lineBreaks,if_neg (by simp [hb]),ih (fun x hx => h x (List.mem_cons_of_mem _ hx))]

theorem currentLine_append {s t : Bytes} (h : ∀ b ∈ t, isLineBreak b = false) :
    currentLine (s ++ t) = currentLine s ++ t := by
  have hreverse : ∀ b ∈ t.reverse, (!isLineBreak b) = true := by
    intro b hb
    rw [h b (List.mem_reverse.mp hb)]
    rfl
  simp only [currentLine,List.rtakeWhile,List.reverse_append]
  rw [List.takeWhile_append_of_pos hreverse,List.reverse_append,List.reverse_reverse]

theorem currentLine_break {s : Bytes} {b : Byte} (h : isLineBreak b = true) : currentLine (s ++ [b]) = [] := by
  apply List.rtakeWhile_concat_neg
  simp [h]

section Advances
variable {c c' c'' : Cursor} {b : Byte} {x y t : Bytes}

theorem Moves.refl (c : Cursor) : Moves [] c c := by
  refine ⟨After.refl c,fun mark before h => ?_⟩
  rw [List.append_nil]
  exact h

theorem Moves.trans (h : Moves x c c') (h' : Moves y c' c'') : Moves (x ++ y) c c'' := by
  refine ⟨h.1.trans h'.1,fun mark before hloc => ?_⟩
  rw [← List.append_assoc]
  exact h'.2 mark _ (h.2 mark before hloc)

def LineBreak (x : Bytes) : Prop := x = [lf] ∨ x = [cr] ∨ x = crlf

theorem LineBreak.text (h : LineBreak x) : x ≠ [] ∧ (∀ b ∈ x, isLineBreak b = true) ∧ lineBreaks x = 1 := by
  rcases h with rfl | rfl | rfl
  all_goals exact ⟨by decide,by simp [isLineBreak,crlf],by decide +kernel⟩

theorem Located.newline {mark before rest : Bytes} {location : SourceLocation} (h : Located mark before rest location)
    (hx : LineBreak x) (hwhole : before.getLast? = some cr → x.head? ≠ some lf) {rest' : Bytes}
    (hrest : x.getLast? = some cr → rest'.head? ≠ some lf) :
    Located mark (before ++ x) rest' ⟨location.byteOffset + x.length,location.line + 1,1⟩ := by
  obtain ⟨hne,hbreak,hone⟩ := hx.text
  obtain ⟨y,b,rfl⟩ : ∃ y b, x = y ++ [b] := ⟨_,_,(List.dropLast_append_getLast hne).symm⟩
  refine ⟨?_,?_,⟨[],?_,rfl⟩,?_⟩
  · simp only [h.byteOffset,List.length_append]
    omega
  · simp only [lineBreaks_append hwhole,hone,h.line]
    omega
  · rw [← List.append_assoc,currentLine_break (hbreak b (by simp))]
    rfl
  · intro hlast
    apply hrest
    rw [← List.append_assoc,List.getLast?_concat] at hlast
    rw [List.getLast?_concat,hlast]

/-- A scalar that is no line break moves the column by one. -/
theorem Located.scalar {mark before rest : Bytes} {location : SourceLocation} (h : Located mark before rest location)
    {v : Scalar} (hv : ∀ b ∈ encode v, isLineBreak b = false) (rest' : Bytes) :
    Located mark (before ++ encode v) rest'
      ⟨location.byteOffset + (encode v).length,location.line,location.column + 1⟩ := by
  obtain ⟨scalars,hline,hcolumn⟩ := h.column
  have hhead : before.getLast? = some cr → (encode v).head? ≠ some lf := by
    intro _ hhead
    have := hv lf (List.mem_of_head? hhead)
    exact absurd this (by decide)
  refine ⟨?_,?_,⟨scalars ++ [v],?_,?_⟩,?_⟩
  · simp only [h.byteOffset,List.length_append]
    omega
  · simp only [lineBreaks_append hhead,lineBreaks_none hv,h.line,Nat.add_zero]
  · rw [currentLine_append hv,hline]
    simp
  · simp only [hcolumn,List.length_append,List.length_singleton]
    omega
  · intro hlast
    rw [List.getLast?_append_of_ne_nil _ (encode_ne_nil v)] at hlast
    exact absurd (hv cr (List.mem_of_getLast? hlast)) (by decide)

theorem advanceAscii_break (hc : c.rest = b :: t) (hb : isLineBreak b = true) :
    ∃ x, LineBreak x ∧ x.head? = some b ∧ (x = [cr] → t.head? ≠ some lf) ∧ Moves x c c.advanceAscii := by
  obtain ⟨rest,location⟩ := c
  obtain rfl : rest = b :: t := hc
  have hwhole (mark before : Bytes) (h : Located mark before (b :: t) location) :
      before.getLast? = some cr → (b :: t).head? ≠ some lf := h.whole
  simp only [isLineBreak,Bool.or_eq_true,decide_eq_true_eq] at hb
  rcases hb with rfl | rfl
  · cases t with
    | nil =>
      refine ⟨[cr],Or.inr (Or.inl rfl),rfl,fun _ => by simp,⟨rfl,rfl⟩,fun mark before h => ?_⟩
      exact h.newline (Or.inr (Or.inl rfl)) (fun _ => by decide) (fun _ => nofun)
    | cons y t =>
      by_cases hy : y = lf
      · subst hy
        refine ⟨crlf,Or.inr (Or.inr rfl),rfl,fun h => absurd h (by decide),⟨rfl,rfl⟩,fun mark before h => ?_⟩
        exact h.newline (Or.inr (Or.inr rfl)) (fun _ => by decide) (fun hlast => absurd hlast (by decide))
      · refine ⟨[cr],Or.inr (Or.inl rfl),rfl,fun _ => by simpa using hy,⟨?_,?_⟩,fun mark before h => ?_⟩
        · simp [Cursor.advanceAscii,hy]
        · simp [Cursor.advanceAscii,hy]
        · have hstep : Cursor.advanceAscii ⟨cr :: y :: t,location⟩ =
              ⟨y :: t,location.byteOffset + 1,location.line + 1,1⟩ := by simp [Cursor.advanceAscii,hy]
          rw [hstep]
          exact h.newline (Or.inr (Or.inl rfl)) (fun _ => by decide) (fun _ => by simpa using hy)
  · have hstep : Cursor.advanceAscii ⟨lf :: t,location⟩ = ⟨t,location.byteOffset + 1,location.line + 1,1⟩ := rfl
    refine ⟨[lf],Or.inl rfl,rfl,fun h => absurd h (by decide),⟨rfl,rfl⟩,fun mark before h => ?_⟩
    rw [hstep]
    exact h.newline (x := [lf]) (Or.inl rfl) h.whole (fun hlast => absurd hlast (by decide))

theorem advanceScalar_moves {v : Scalar} (hc : c.rest = encode v ++ t) (hv : ∀ b ∈ encode v, isLineBreak b = false) :
    Moves (encode v) c (c.advanceScalar (encode v).length) := by
  have hread : decodeOne c.rest = some ⟨v.val,(encode v).length⟩ := by
    rw [hc]
    exact decodeOne_encode v t
  have hcr : c.rest.head? ≠ some cr := by
    intro hhead
    rw [hc,List.head?_append_of_ne_nil _ (encode_ne_nil v)] at hhead
    exact absurd (hv cr (List.mem_of_head? hhead)) (by decide)
  have hafter := advanceScalar_after hread hcr
  rw [hc,List.take_left] at hafter
  refine ⟨hafter,fun mark before h => ?_⟩
  have hlocation : (c.advanceScalar (encode v).length).location =
      ⟨c.location.byteOffset + (encode v).length,c.location.line,c.location.column + 1⟩ := by
    unfold Cursor.advanceScalar
    split
    · rename_i hone
      obtain ⟨b,hb⟩ := List.length_eq_one_iff.mp hone
      have hbreak := hv b (by simp [hb])
      simp only [isLineBreak,Bool.or_eq_false_iff,decide_eq_false_iff_not] at hbreak
      rw [hb] at hc
      simp only [Cursor.advanceAscii,hc,List.singleton_append,hbreak,if_false,hone]
    · rfl
  rw [hlocation]
  exact h.scalar hv _

theorem advanceAscii_moves (hc : c.rest = b :: t) (hb : b < 0x80) (hbreak : isLineBreak b = false) :
    Moves [b] c c.advanceAscii := by
  have hv : isScalarValue b.toNat = true := by
    have hlt : b.toNat < 0x80 := hb
    simp only [isScalarValue,Bool.and_eq_true,Bool.or_eq_true,decide_eq_true_eq]
    omega
  have hencode : encode ⟨b.toNat,hv⟩ = [b] := by
    rw [encode_of_ascii hb,UInt8.ofNat_toNat]
  have hmoves := advanceScalar_moves (v := ⟨b.toNat,hv⟩) (c := c) (t := t) (by rw [hencode]; exact hc)
    (by rw [hencode]; simpa using hbreak)
  rwa [hencode] at hmoves

end Advances
end SpareNode.Configuration
