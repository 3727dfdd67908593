import SpareNode.Configuration.LexerTiling

/-! # Reading what the grammar allows

Trivia is skipped and a lexeme that is not continued is read, whatever stands after it.
-/
namespace SpareNode.Configuration
open Utf8

section Reading
variable {c : Cursor} {b : Byte} {s t w x : Bytes}

theorem skipComment_stop (hend : ∀ b ∈ c.rest.head?, isLineBreak b = true) : skipComment c = .ok c := by
  rw [skipComment]
  split
  · rfl
  · rename_i b rest hrest
    have hb := hend b (by rw [hrest]; rfl)
    rw [if_pos (by simpa [isLineBreak] using hb)]

theorem skipComment_scalar {v : Scalar} (hc : c.rest = encode v ++ t)
    (hv : v.val ≠ 0x0A ∧ v.val ≠ 0x0D ∧ v.val ≠ 0 ∧ v.val ≠ 0xFEFF) :
    skipComment c = skipComment (c.advanceScalar (encode v).length) := by
  obtain ⟨hlf,hcr,hnull,hmark⟩ := hv
  rw [skipComment]
  split
  · rename_i hrest
    rw [hrest] at hc
    exact absurd (List.append_eq_nil_iff.mp hc.symm).1 (encode_ne_nil v)
  · rename_i b rest hrest
    have hhead : b ∈ (encode v).head? := encode_head hc hrest
    have hplain : ¬(b = cr || b = lf) = true := by
      rw [Bool.or_eq_true,decide_eq_true_eq,decide_eq_true_eq]
      rintro (rfl | rfl)
      · exact hcr ((encode_head_ascii (by decide)).mp hhead)
      · exact hlf ((encode_head_ascii (by decide)).mp hhead)
    have hzero : ¬b = 0 := by
      rintro rfl
      exact hnull ((encode_head_ascii (by decide)).mp hhead)
    have hbom : ¬hasByteOrderMark c.rest = true := by
      rw [hc,hasByteOrderMark_encode]
      exact hmark
    have hlength := utf8SequenceLength_encode hc
    have hpositive := List.length_pos_of_ne_nil (encode_ne_nil v)
    rw [if_neg hplain,if_neg hzero,if_neg hbom,dif_neg (by omega),hlength]

theorem skipComment_comment {text : Bytes} (htext : CommentText text) (hc : c.rest = text ++ t)
    (hend : ∀ b ∈ t.head?, isLineBreak b = true) : ∃ c', skipComment c = .ok c' ∧ c'.rest = t := by
  obtain ⟨scalars,rfl,hall⟩ := htext
  induction scalars generalizing c with
  | nil => exact ⟨c,skipComment_stop (by rw [hc]; exact hend),hc⟩
  | cons v scalars ih =>
    rw [encodeAll_cons,List.append_assoc] at hc
    have hv := hall v List.mem_cons_self
    have hbreak : ∀ b ∈ encode v, isLineBreak b = false := by
      apply encode_no_break
      intro b hb
      cases hline : isLineBreak b with
      | false => rfl
      | true =>
        simp only [isLineBreak,Bool.or_eq_true,decide_eq_true_eq] at hline
        rcases hline with rfl | rfl
        · exact absurd ((encode_head_ascii (by decide)).mp hb) hv.2.1
        · exact absurd ((encode_head_ascii (by decide)).mp hb) hv.1
    have hmoves := advanceScalar_moves hc hbreak
    obtain ⟨c',hskip,hrest⟩ := ih (fun u hu => hall u (List.mem_cons_of_mem _ hu)) (hmoves.1.rest hc)
    exact ⟨c',(skipComment_scalar hc hv).trans hskip,hrest⟩

theorem skipTrivia_stop (hend : ∀ b ∈ c.rest.head?, beginsToken b = true) : skipTrivia c = .ok c := by
  rw [skipTrivia]
  split
  · rfl
  · rename_i b rest hrest
    have hb := hend b (by rw [hrest]; rfl)
    simp only [beginsToken,Bool.not_eq_eq_eq_not,Bool.not_true,Bool.or_eq_false_iff,decide_eq_false_iff_not] at hb
    rw [if_neg (by simp [hb]),if_pos hb.2]

theorem skipTrivia_white (hc : c.rest = b :: t) (hb : b = char ' ' ∨ b = 9 ∨ isLineBreak b = true) :
    skipTrivia c = skipTrivia c.advanceAscii := by
  rw [skipTrivia]
  split
  · rename_i hrest
    rw [hrest] at hc
    cases hc
  · rename_i b' rest hrest
    obtain ⟨rfl,-⟩ := List.cons.inj (hrest.symm.trans hc)
    rw [if_pos (by simpa [isLineBreak,or_assoc] using hb)]

/-- A CRLF is passed at once, as if its CR had been passed before. -/
theorem advanceAscii_white_rest (hc : c.rest = b :: t) (hb : b = char ' ' ∨ b = 9 ∨ isLineBreak b = true) :
    ∃ c', c'.rest = t ∧ skipTrivia c.advanceAscii = skipTrivia c' := by
  obtain ⟨rest,location⟩ := c
  obtain rfl : rest = b :: t := hc
  by_cases hcrlf : b = cr ∧ ∃ t', t = lf :: t'
  · obtain ⟨rfl,t',rfl⟩ := hcrlf
    refine ⟨⟨lf :: t',⟨location.byteOffset + 1,location.line,location.column⟩⟩,rfl,?_⟩
    rw [skipTrivia_white (c := ⟨lf :: t',_⟩) rfl (Or.inr (Or.inr (by decide)))]
    rfl
  · refine ⟨_,?_,rfl⟩
    unfold Cursor.advanceAscii
    dsimp only
    split
    · rename_i hcr
      cases t with
      | nil => rfl
      | cons y t =>
        have hy : y ≠ lf := fun hlf => hcrlf ⟨hcr,t,by rw [hlf]⟩
        simp only [hy,if_false]
    · split <;> rfl

theorem skipTrivia_comment {text : Bytes} (htext : CommentText text) (hc : c.rest = char '#' :: (text ++ t))
    (hend : ∀ b ∈ t.head?, isLineBreak b = true) : ∃ c', skipTrivia c = skipTrivia c' ∧ c'.rest = t := by
  have hopen := advanceAscii_after hc (by decide)
  obtain ⟨c',hskip,hrest'⟩ := skipComment_comment htext (hopen.rest hc) hend
  refine ⟨c',?_,hrest'⟩
  rw [skipTrivia]
  split
  · rename_i hrest
    rw [hrest] at hc
    cases hc
  · rename_i b rest hrest
    obtain ⟨rfl,-⟩ := List.cons.inj (hrest.symm.trans hc)
    rw [if_neg (by decide),if_neg (by decide)]
    split
    · rename_i e he
      rw [hskip] at he
      cases he
    · rename_i c'' hok
      rw [hskip] at hok
      cases hok
      rfl

/-- Trivia before a token, or before the end of the input. -/
theorem skipTrivia_trivia {final : Bool} (hw : Trivia final w) (hc : c.rest = w ++ t) (hfinal : final = true → t = [])
    (hend : ∀ b ∈ t.head?, beginsToken b = true) : ∃ c', skipTrivia c = .ok c' ∧ c'.rest = t := by
  induction hw generalizing c with
  | nil => exact ⟨c,skipTrivia_stop (by rw [hc]; exact hend),hc⟩
  | @space final b s hb _ ih =>
    obtain ⟨c₁,hrest,hskip⟩ := advanceAscii_white_rest (t := s ++ t) hc hb
    obtain ⟨c',hread,hrest'⟩ := ih hrest hfinal
    exact ⟨c',(skipTrivia_white (t := s ++ t) hc hb).trans (hskip.trans hread),hrest'⟩
  | @comment final text s b htext hb _ ih =>
    have hbreak : ∀ y ∈ (b :: (s ++ t)).head?, isLineBreak y = true := by
      intro y hy
      obtain rfl := Option.some.inj hy
      exact hb
    obtain ⟨c₁,hskip,hrest⟩ := skipTrivia_comment (t := b :: (s ++ t)) htext (by rw [hc]; simp) hbreak
    obtain ⟨c₂,hrest',hskip'⟩ := advanceAscii_white_rest hrest (Or.inr (Or.inr hb))
    obtain ⟨c',hread,hrest''⟩ := ih hrest' hfinal
    exact ⟨c',hskip.trans ((skipTrivia_white hrest (Or.inr (Or.inr hb))).trans (hskip'.trans hread)),hrest''⟩
  | @last text htext =>
    obtain rfl := hfinal rfl
    obtain ⟨c',hskip,hrest⟩ := skipTrivia_comment (t := []) htext hc (by simp)
    exact ⟨c',hskip.trans (skipTrivia_stop (by simp [hrest])),hrest⟩

theorem begins_continues : ∀ b, isIdentifierStart b = true → isIdentifierContinuation b = true ∧
    beginsToken b = true ∧ b ≠ cr :=
  forall_byte (by decide +kernel)

theorem begins_integer : ∀ b, isDecimalDigit b = true → isIdentifierStart b = false ∧ beginsToken b = true ∧ b ≠ cr :=
  forall_byte (by decide +kernel)

theorem begins_punctuation : ∀ b, punctuation b ≠ none → isIdentifierStart b = false ∧ isDecimalDigit b = false ∧
    b ≠ char '"' ∧ beginsToken b = true ∧ b ≠ cr :=
  forall_byte (by decide +kernel)

/-- An identifier, or one of the two literals of its form. -/
theorem lexIdentifier_word (hb : isIdentifierStart b = true) (hx : x.all isIdentifierContinuation = true)
    (hc : c.rest = b :: x ++ t) (ht : ∀ y ∈ t.head?, isIdentifierContinuation y = false) :
    ∃ c', lexIdentifier c = (⟨if b :: x = ascii "true" || b :: x = ascii "false" then .booleanLiteral else .identifier,
      b :: x,none,c.location⟩,c') ∧ c'.rest = t := by
  have hfirst := advanceAscii_after hc (begins_continues b hb).2.2
  have hword := hfirst.trans (advanceWhile_after (by decide) (hfirst.rest hc) hx ht)
  refine ⟨_,?_,hword.rest hc⟩
  simp only [lexIdentifier,consumed_after hword]
  rfl

theorem lexToken_lexeme {kind : ConfigTokenKind} {decoded : Option Bytes} (h : Lexeme kind x decoded)
    (hc : c.rest = x ++ t) (ht : Ends kind t) :
    ∃ c', ConfigLexer.lexToken c = .ok (⟨kind,x,decoded,c.location⟩,c') ∧ c'.rest = t := by
  cases h with
  | @word b x hb hx hkeyword =>
    obtain ⟨c',hlex,hrest⟩ := lexIdentifier_word hb hx hc ht
    refine ⟨c',?_,hrest⟩
    rw [lexToken_cons hc,if_pos hb,hlex,if_neg (by simp [hkeyword])]
  | boolean h =>
    have hword : ∃ b y, x = b :: y ∧ isIdentifierStart b = true ∧ y.all isIdentifierContinuation = true := by
      rcases h with rfl | rfl
      · exact ⟨char 't',ascii "rue",by decide,by decide,by decide⟩
      · exact ⟨char 'f',ascii "alse",by decide,by decide,by decide⟩
    obtain ⟨b,y,rfl,hb,hy⟩ := hword
    obtain ⟨c',hlex,hrest⟩ := lexIdentifier_word hb hy hc ht
    refine ⟨c',?_,hrest⟩
    rw [lexToken_cons hc,if_pos hb,hlex,if_pos (by simpa using h)]
  | @integer b x h =>
    obtain ⟨hb,hx⟩ : isDecimalDigit b = true ∧ x.all isDecimalDigit = true := by simpa using h
    have hfirst := advanceAscii_after hc (begins_integer b hb).2.2
    have hdigits := hfirst.trans (advanceWhile_after (by decide) (hfirst.rest hc) hx ht)
    refine ⟨_,?_,hdigits.rest hc⟩
    rw [lexToken_cons hc,if_neg (by simp [begins_integer b hb]),if_pos hb,lexInteger,consumed_after hdigits]
    rfl
  | @string raw value h =>
    have hcut : c.rest = char '"' :: (raw ++ char '"' :: t) := by
      rw [hc]
      simp
    have hopen := advanceAscii_after hcut (by decide)
    obtain ⟨stop,hread,hbody⟩ := consumeString_spells [] h (hopen.rest hcut)
    have hstop : stop.rest = char '"' :: t := hbody.rest (hopen.rest hcut)
    have hclose := (hopen.trans hbody).trans (advanceAscii_after hstop (by decide))
    refine ⟨stop.advanceAscii,?_,(advanceAscii_after hstop (by decide)).rest hstop⟩
    rw [lexToken_cons hcut,if_neg (by decide),if_neg (by decide),if_pos rfl,lexString,hread]
    dsimp only
    rw [hstop]
    dsimp only
    rw [consumed_after hclose]
    rfl
  | @mark b kind hb =>
    have hplain := begins_punctuation b (by simp [hb])
    have hstep := advanceAscii_after hc hplain.2.2.2.2
    refine ⟨c.advanceAscii,?_,hstep.rest hc⟩
    rw [lexToken_cons hc,if_neg (by simp [hplain]),if_neg (by simp [hplain]),if_neg hplain.2.2.1,hb]
    simp only [lexPunctuation,hc]
    rfl

theorem Lexeme.begins {kind : ConfigTokenKind} {decoded : Option Bytes} (h : Lexeme kind x decoded) :
    ∀ b ∈ x.head?, beginsToken b = true := by
  intro y hy
  cases h with
  | word hb hx hkeyword =>
    obtain rfl := Option.some.inj hy
    exact (begins_continues _ hb).2.1
  | boolean h =>
    rcases h with rfl | rfl <;> (obtain rfl := Option.some.inj hy; decide)
  | @integer b x h =>
    obtain rfl : b = y := Option.some.inj hy
    have hb : isDecimalDigit b = true := List.all_eq_true.mp h b List.mem_cons_self
    exact (begins_integer b hb).2.1
  | string h =>
    obtain rfl := Option.some.inj hy
    decide
  | mark hb =>
    obtain rfl := Option.some.inj hy
    exact (begins_punctuation _ (by simp [hb])).2.2.2.1

theorem Lexeme.first_ascii {kind : ConfigTokenKind} {decoded : Option Bytes} (h : Lexeme kind x decoded) :
    ∀ b ∈ x.head?, b < 0x80 := by
  intro y hy
  cases h with
  | word hb hx hkeyword =>
    obtain rfl := Option.some.inj hy
    exact (identifier_ascii _ (begins_continues _ hb).1).1
  | boolean h =>
    rcases h with rfl | rfl <;> (obtain rfl := Option.some.inj hy; decide)
  | @integer b x h =>
    obtain rfl : b = y := Option.some.inj hy
    exact (digit_ascii b (List.all_eq_true.mp h b List.mem_cons_self)).1
  | string h =>
    obtain rfl := Option.some.inj hy
    decide
  | mark hb =>
    obtain rfl := Option.some.inj hy
    exact (punctuation_ascii _ (by simp [hb])).1

theorem Trivia.first_ascii {final : Bool} (h : Trivia final w) : ∀ b ∈ w.head?, b < 0x80 := by
  have hwhite : ∀ b : Byte, (b = char ' ' ∨ b = 9 ∨ isLineBreak b = true) → b < 0x80 :=
    forall_byte (by decide +kernel)
  intro y hy
  cases h with
  | nil => cases hy
  | space hb =>
    obtain rfl := Option.some.inj hy
    exact hwhite _ hb
  | comment =>
    obtain rfl := Option.some.inj hy
    decide
  | last =>
    obtain rfl := Option.some.inj hy
    decide

end Reading
end SpareNode.Configuration
