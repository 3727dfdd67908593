import SpareNode.Foundation.Bytes

/-! # Lines

A text split at each CRLF, into the lines that one ends and what stands after the last of them.
-/
namespace SpareNode

def splitLines : Bytes → List Bytes × Bytes
  | [] => ([],[])
  | [b] => ([],[b])
  | a :: b :: rest =>
    if a = cr ∧ b = lf then ([] :: (splitLines rest).1,(splitLines rest).2)
    else
      match splitLines (b :: rest) with
      | ([],tail) => ([],a :: tail)
      | (line :: lines,tail) => ((a :: line) :: lines,tail)

/-- One more byte before a text that does not complete a terminator with it. -/
theorem splitLines_cons {a : Byte} {s : Bytes} (h : a ≠ cr ∨ s.head? ≠ some lf) :
    splitLines (a :: s) =
      match splitLines s with
      | ([],tail) => ([],a :: tail)
      | (line :: lines,tail) => ((a :: line) :: lines,tail) := by
  cases s with
  | nil => rfl
  | cons b rest =>
    have hpair : ¬(a = cr ∧ b = lf) := by
      rintro ⟨rfl,rfl⟩
      rcases h with h | h <;> exact h rfl
    rw [splitLines,if_neg hpair]

theorem splitLines_crlf (s : Bytes) : splitLines (crlf ++ s) = ([] :: (splitLines s).1,(splitLines s).2) :=
  if_pos ⟨rfl,rfl⟩

/-- A terminator ends what stands before it, whatever that is: the two bytes of a terminator differ. -/
theorem splitLines_append (s t : Bytes) : splitLines (s ++ crlf ++ t) =
    ((splitLines s).1 ++ (splitLines s).2 :: (splitLines t).1,(splitLines t).2) := by
  fun_induction splitLines s with
  | case1 => exact splitLines_crlf t
  | case2 b =>
    have hhead : ([] ++ crlf ++ t : Bytes).head? ≠ some lf := by simp [crlf,cr,lf]
    exact (splitLines_cons (Or.inr hhead)).trans (by rw [List.nil_append,splitLines_crlf]; rfl)
  | case3 a b rest hpair ih =>
    obtain ⟨rfl,rfl⟩ := hpair
    have hsplit : cr :: lf :: rest ++ crlf ++ t = crlf ++ (rest ++ crlf ++ t) := by simp [crlf]
    rw [hsplit,splitLines_crlf,ih]
    rfl
  | case4 a b rest hpair tail hrest ih =>
    have hnext : a ≠ cr ∨ (b :: rest ++ crlf ++ t).head? ≠ some lf := by
      by_contra hboth
      rw [not_or,not_not,not_not] at hboth
      exact hpair ⟨hboth.1,Option.some.inj hboth.2⟩
    rw [hrest] at ih
    rw [List.cons_append,List.cons_append,splitLines_cons hnext,ih]
    rfl
  | case5 a b rest hpair line lines tail hrest ih =>
    have hnext : a ≠ cr ∨ (b :: rest ++ crlf ++ t).head? ≠ some lf := by
      by_contra hboth
      rw [not_or,not_not,not_not] at hboth
      exact hpair ⟨hboth.1,Option.some.inj hboth.2⟩
    rw [hrest] at ih
    rw [List.cons_append,List.cons_append,splitLines_cons hnext,ih]
    rfl

theorem splitLines_of_no_cr {s : Bytes} (h : cr ∉ s) : splitLines s = ([],s) := by
  induction s with
  | nil => rfl
  | cons a s ih =>
    rw [List.mem_cons,not_or] at h
    rw [splitLines_cons (Or.inl (Ne.symm h.1)),ih h.2]

theorem splitLines_eq_nil {s : Bytes} : splitLines s = ([],[]) → s = [] := by
  fun_induction splitLines s with
  | case1 => exact fun _ => rfl
  | case2 b => exact nofun
  | case3 => exact nofun
  | case4 => exact nofun
  | case5 => exact nofun

/-- Lines without a carriage return, each with its terminator, are what their text splits into. -/
theorem splitLines_lines {lines : List Bytes} (h : ∀ line ∈ lines, cr ∉ line) :
    splitLines (lines.flatMap (· ++ crlf)) = (lines,[]) := by
  induction lines with
  | nil => rfl
  | cons line lines ih =>
    rw [List.forall_mem_cons] at h
    rw [List.flatMap_cons,splitLines_append,ih h.2,splitLines_of_no_cr h.1]
    rfl

/-- Two terminators in a row stand only at the end of a text whose last line alone is empty. -/
theorem crlf_pair_at_end {lines : List Bytes} (h : ∀ line ∈ lines, cr ∉ line ∧ line ≠ []) {before after : Bytes}
    (hsplit : (lines ++ [[]]).flatMap (· ++ crlf) = before ++ crlf ++ crlf ++ after) : after = [] := by
  have hlines : ∀ line ∈ lines ++ [[]], cr ∉ line := by
    intro line hmem
    rcases List.mem_append.mp hmem with hmem | hmem
    · exact (h line hmem).1
    · rw [List.mem_singleton.mp hmem]
      exact List.not_mem_nil
  have hwhole := splitLines_lines hlines
  rw [hsplit,List.append_assoc (before ++ crlf),splitLines_append,splitLines_crlf,Prod.mk.injEq] at hwhole
  obtain ⟨hall,hrest⟩ := hwhole
  rcases List.eq_nil_or_concat (splitLines after).1 with hnone | ⟨middle,last,hmore⟩
  · exact splitLines_eq_nil (Prod.ext hnone hrest)
  · -- the empty line between the two terminators would come before the last line
    dsimp only at hall
    rw [hmore,List.concat_eq_append,← List.cons_append,← List.cons_append,← List.append_assoc] at hall
    have hlines := (List.append_inj' hall rfl).1
    have hmem : [] ∈ lines := by
      rw [← hlines]
      exact List.mem_append_right _ (List.mem_cons_of_mem _ List.mem_cons_self)
    exact absurd rfl (h [] hmem).2

end SpareNode
