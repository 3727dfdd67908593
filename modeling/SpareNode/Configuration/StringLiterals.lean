import SpareNode.Configuration.ConfigLexerTokens

/-! # String literals

The text between the quotes spells a value: each scalar stands for itself, except that quotes,
backslashes, line breaks, NUL and the byte-order mark are not written raw, and five escapes
denote one character each. The lexer reads exactly the texts that spell a value.
-/
namespace SpareNode.Configuration
open Utf8

/-- One scalar that stands for itself inside quotes. -/
structure PlainScalar (x : Bytes) : Prop where
  decodes : ∃ v, decodeOne x = some ⟨v,x.length⟩
  plain : ∀ b ∈ x.head?, b ≠ cr ∧ b ≠ lf ∧ b ≠ 0 ∧ b ≠ char '"' ∧ b ≠ char '\\'
  mark : x ≠ utf8ByteOrderMark

/-- `raw` is a way to write `decoded` between quotes. -/
inductive Spells : Bytes → Bytes → Prop
  | nil : Spells [] []
  | scalar {x raw decoded : Bytes} (hx : PlainScalar x) (h : Spells raw decoded) :
      Spells (x ++ raw) (x ++ decoded)
  | escape {b x : Byte} {raw decoded : Bytes} (hb : escapedCharacter b = some x)
      (h : Spells raw decoded) : Spells (char '\\' :: b :: raw) (x :: decoded)

section Characters
variable {c c' : Cursor} {b x : Byte} {s t decoded decoded' : Bytes}

/-- A byte-order mark at a scalar boundary is the scalar there. -/
theorem hasByteOrderMark_iff {scalar : DecodedScalar} (h : decodeOne s = some scalar) :
    hasByteOrderMark s = true ↔ s.take scalar.byteCount = utf8ByteOrderMark := by
  rw [hasByteOrderMark,List.isPrefixOf_iff_prefix]
  constructor
  · rintro ⟨t,rfl⟩
    have hscalar : decodeOne utf8ByteOrderMark = some ⟨0xFEFF,3⟩ := by decide +kernel
    have hmark : decodeOne (utf8ByteOrderMark ++ t) = some ⟨0xFEFF,3⟩ := decodeOne_take hscalar t
    obtain rfl := Option.some.inj (h.symm.trans hmark)
    rfl
  · intro htake
    rw [← htake]
    exact List.take_prefix _ _

theorem decodeOne_plain (hx : PlainScalar s) (t : Bytes) :
    ∃ v, decodeOne (s ++ t) = some ⟨v,s.length⟩ := by
  obtain ⟨v,hv⟩ := hx.decodes
  refine ⟨v,?_⟩
  have htake := decodeOne_take hv t
  rwa [List.take_length] at htake

theorem consumeStringCharacter_plain (decoded : Bytes) (hx : PlainScalar s) (hc : c.rest = s ++ t) :
    ∃ c', consumeStringCharacter decoded c = .ok (decoded ++ s,c') ∧ After s c c' := by
  obtain ⟨v,hv⟩ := decodeOne_plain hx t
  rw [← hc] at hv
  have hcount := decodeOne_byteCount hv
  cases s with
  | nil => simp at hcount
  | cons b s =>
    obtain ⟨hcr,hlf,hnul,-,hbackslash⟩ := hx.plain b rfl
    have hrest : c.rest = b :: (s ++ t) := hc
    have hlength : c.utf8SequenceLength = s.length + 1 := by
      rw [Cursor.utf8SequenceLength,hv]
      rfl
    have htake : c.rest.take (s.length + 1) = b :: s := by
      rw [hc]
      exact List.take_left' rfl
    have hmark : hasByteOrderMark c.rest = false := by
      rw [← Bool.not_eq_true,hasByteOrderMark_iff hv]
      exact fun h => hx.mark (htake.symm.trans h)
    have hafter := advanceScalar_after hv (by rw [hrest]; simp [hcr])
    refine ⟨c.advanceScalar (s.length + 1),?_,?_⟩
    · unfold consumeStringCharacter
      rw [hrest]
      dsimp only
      rw [← hrest]
      simp [hcr,hlf,hnul,hmark,hbackslash,hlength,htake]
    · exact htake ▸ hafter

theorem escapedCharacter_ascii (h : escapedCharacter b = some x) :
    b ≠ 0 ∧ b ≠ cr ∧ b ≠ lf ∧ b < 0x80 ∧ ∀ t, hasByteOrderMark (b :: t) = false := by
  have hbyte : b = char '"' ∨ b = char '\\' ∨ b = char 'n' ∨ b = char 'r' ∨ b = char 't' := by
    unfold escapedCharacter at h
    repeat' split at h
    all_goals simp_all
  have hmark : b ≠ 0xEF := by rcases hbyte with rfl | rfl | rfl | rfl | rfl <;> decide
  refine ⟨?_,?_,?_,?_,?_⟩
  all_goals try (rcases hbyte with rfl | rfl | rfl | rfl | rfl <;> decide)
  intro t
  rw [hasByteOrderMark,utf8ByteOrderMark,List.isPrefixOf_cons_cons,beq_false_of_ne hmark.symm]
  rfl

theorem consumeStringCharacter_escape (decoded : Bytes) (hb : escapedCharacter b = some x)
    (hc : c.rest = char '\\' :: b :: t) :
    ∃ c', consumeStringCharacter decoded c = .ok (decoded ++ [x],c') ∧
      After [char '\\',b] c c' := by
  obtain ⟨hnul,hcr,hlf,hascii,hmark⟩ := escapedCharacter_ascii hb
  have hfirst := advanceAscii_after hc (by decide)
  have hnext : c.advanceAscii.rest = b :: t := hfirst.rest hc
  have hstep : consumeStringCharacter decoded c = consumeEscape decoded c := by
    unfold consumeStringCharacter
    rw [hc]
    rfl
  refine ⟨c.advanceAscii.advanceAscii,?_,hfirst.trans (advanceAscii_after hnext hcr)⟩
  rw [hstep]
  simp only [consumeEscape,hnext]
  have hlength : c.advanceAscii.utf8SequenceLength = 1 := by
    rw [Cursor.utf8SequenceLength,hnext,decodeOne_ascii hascii]
  simp [hnul,hcr,hlf,hmark t,hlength,hb]

/-- What `consume_string_character` accepts is a plain scalar or a permitted escape. -/
theorem consumeStringCharacter_sound (hne : c.rest ≠ []) (hquote : c.rest.head? ≠ some (char '"'))
    (h : consumeStringCharacter decoded c = .ok (decoded',c')) :
    (∃ s, PlainScalar s ∧ c.rest = s ++ c'.rest ∧ decoded' = decoded ++ s) ∨
    ∃ b x, escapedCharacter b = some x ∧ c.rest = char '\\' :: b :: c'.rest ∧
      decoded' = decoded ++ [x] := by
  cases hrest : c.rest with
  | nil => exact absurd hrest hne
  | cons b s =>
    unfold consumeStringCharacter at h
    rw [hrest] at h
    dsimp only at h
    split at h
    · cases h
    · rename_i hbreak
      split at h
      · cases h
      · rename_i hnul
        split at h
        · cases h
        · rename_i hmark
          split at h
          · -- a backslash
            rename_i hbackslash
            right
            subst hbackslash
            have hstep := advanceAscii_after hrest (by decide)
            simp only [consumeEscape] at h
            split at h
            · cases h
            · rename_i y rest hnext
              repeat' split at h
              all_goals cases h
              rename_i hy
              have hcr : y ≠ cr := (escapedCharacter_ascii hy).2.1
              have hsecond := (advanceAscii_after hnext hcr).1
              have hfirst := hstep.1
              rw [hrest,hsecond] at hfirst
              exact ⟨y,_,hy,hfirst,rfl⟩
          · rename_i hbackslash
            split at h
            · cases h
            · rename_i hlength
              left
              simp only [Bool.or_eq_true,decide_eq_true_eq,not_or] at hbreak
              cases hd : decodeOne c.rest with
              | none => simp [Cursor.utf8SequenceLength,hd] at hlength
              | some scalar =>
                have hcount := decodeOne_byteCount hd
                have hseq : c.utf8SequenceLength = scalar.byteCount := by
                  rw [Cursor.utf8SequenceLength,hd]
                have hafter := advanceScalar_after hd (by rw [hrest]; simp [hbreak.1])
                rw [← hrest,hseq] at h
                cases h
                have hlen : (c.rest.take scalar.byteCount).length = scalar.byteCount := by
                  rw [List.length_take]
                  omega
                refine ⟨c.rest.take scalar.byteCount,⟨⟨scalar.value,?_⟩,?_,?_⟩,hrest ▸ hafter.1,rfl⟩
                · rw [hlen,← List.append_nil (c.rest.take scalar.byteCount)]
                  exact decodeOne_take hd []
                · intro y hy
                  have hyb : y = b := by
                    obtain ⟨k,hk⟩ : ∃ k, scalar.byteCount = k + 1 := ⟨scalar.byteCount - 1,by omega⟩
                    rw [hrest,hk] at hy
                    exact (Option.some.inj hy).symm
                  rw [hrest] at hquote
                  subst hyb
                  exact ⟨hbreak.1,hbreak.2,hnul,fun hq => hquote (by simp [hq]),hbackslash⟩
                · intro heq
                  exact hmark (hrest ▸ (hasByteOrderMark_iff hd).mpr heq)

end Characters

section Strings
variable {lexer : ConfigLexer} {c c' : Cursor} {w raw value t decoded decoded' : Bytes}

theorem consumeString_stop (hc : c.rest = char '"' :: t) :
    consumeString decoded c = .ok (decoded,c) := by
  rw [consumeString]
  split
  · rfl
  · rename_i b rest hrest
    rw [if_pos (List.cons.inj (hrest.symm.trans hc)).1]

theorem consumeString_step (hne : c.rest ≠ []) (hquote : c.rest.head? ≠ some (char '"'))
    (h : consumeStringCharacter decoded c = .ok (decoded',c')) :
    consumeString decoded c = consumeString decoded' c' := by
  rw [consumeString]
  split
  · contradiction
  · rename_i b rest hrest
    rw [if_neg (fun hb => hquote (by simp [hrest,hb]))]
    split
    · rename_i e he
      rw [he] at h
      cases h
    · rename_i d'' c'' he
      rw [he] at h
      cases h
      rfl

/-- The lexer reads every text that spells a value, up to the closing quote. -/
theorem consumeString_spells (decoded : Bytes) (h : Spells raw value)
    (hc : c.rest = raw ++ char '"' :: t) :
    ∃ c', consumeString decoded c = .ok (decoded ++ value,c') ∧ After raw c c' := by
  induction h generalizing c decoded with
  | nil =>
    refine ⟨c,?_,After.refl c⟩
    rw [consumeString_stop hc,List.append_nil]
  | @scalar x raw value hx _ ih =>
    rw [List.append_assoc] at hc
    obtain ⟨c₁,hstep,hafter⟩ := consumeStringCharacter_plain decoded hx hc
    obtain ⟨c',hread,hrest⟩ := ih (decoded ++ x) (hafter.rest hc)
    refine ⟨c',?_,hafter.trans hrest⟩
    have hhead : c.rest ≠ [] ∧ c.rest.head? ≠ some (char '"') := by
      obtain ⟨v,hv⟩ := hx.decodes
      cases x with
      | nil => cases hv
      | cons b x =>
        have hb := (hx.plain b rfl).2.2.2.1
        rw [hc]
        exact ⟨by simp,by simpa using hb⟩
    rw [consumeString_step hhead.1 hhead.2 hstep,hread,List.append_assoc]
  | @escape b x raw value hb _ ih =>
    obtain ⟨c₁,hstep,hafter⟩ := consumeStringCharacter_escape decoded hb hc
    obtain ⟨c',hread,hrest⟩ := ih (decoded ++ [x]) (hafter.rest hc)
    refine ⟨c',?_,hafter.trans hrest⟩
    have hhead : c.rest ≠ [] ∧ c.rest.head? ≠ some (char '"') := by
      rw [hc]
      exact ⟨by simp,by simp only [List.cons_append,List.head?_cons]; decide⟩
    rw [consumeString_step hhead.1 hhead.2 hstep,hread,List.append_assoc]
    rfl

/-- What the lexer reads as a string spells the decoded value. -/
theorem consumeString_sound (h : consumeString decoded c = .ok (decoded',c')) :
    ∃ raw value, Spells raw value ∧ c.rest = raw ++ c'.rest ∧ decoded' = decoded ++ value ∧
      (c'.rest = [] ∨ c'.rest.head? = some (char '"')) := by
  fun_induction consumeString decoded c with
  | case1 decoded c hrest =>
    cases h
    exact ⟨[],[],.nil,rfl,(List.append_nil _).symm,Or.inl hrest⟩
  | case2 decoded c rest hrest =>
    cases h
    exact ⟨[],[],.nil,rfl,(List.append_nil _).symm,Or.inr (by simp [hrest])⟩
  | case3 decoded c b rest hrest hb e he => cases h
  | case4 decoded c b rest hrest hb d₁ c₁ hstep ih =>
    obtain ⟨raw,value,hspells,hraw,hvalue,hend⟩ := ih h
    have hquote : c.rest.head? ≠ some (char '"') := by
      rw [hrest]
      simpa using hb
    rcases consumeStringCharacter_sound (by simp [hrest]) hquote hstep with
      ⟨s,hs,hcut,hd⟩ | ⟨y,x,hy,hcut,hd⟩
    · refine ⟨s ++ raw,s ++ value,.scalar hs hspells,?_,?_,hend⟩
      · rw [hcut,hraw,List.append_assoc]
      · rw [hvalue,hd,List.append_assoc]
    · refine ⟨char '\\' :: y :: raw,x :: value,.escape hy hspells,?_,?_,hend⟩
      · rw [hcut,hraw]
        rfl
      · rw [hvalue,hd,List.append_assoc]
        rfl

theorem emits_string (herror : lexer.terminalError = none)
    (hrest : lexer.cursor.rest = w ++ (char '"' :: (raw ++ char '"' :: t)))
    (hw : w.all isSpace = true) (h : Spells raw value) :
    Emits lexer .stringLiteral (char '"' :: (raw ++ [char '"'])) (some value) t := by
  apply emits_of_lexToken herror hrest hw (by simp; decide)
  intro c hc
  have hopen := advanceAscii_after hc (by decide)
  obtain ⟨stop,hread,hbody⟩ := consumeString_spells [] h (hopen.rest hc)
  have hstop : stop.rest = char '"' :: t := hbody.rest (hopen.rest hc)
  have hclose := (hopen.trans hbody).trans (advanceAscii_after hstop (by decide))
  refine ⟨stop.advanceAscii,(advanceAscii_after hstop (by decide)).rest hstop,?_⟩
  have hstring : ConfigLexer.lexToken c = lexString c := by
    unfold ConfigLexer.lexToken
    rw [hc]
    rfl
  rw [hstring,lexString,hread]
  dsimp only
  rw [hstop]
  dsimp only
  rw [consumed_after hclose]
  rfl

/-- A literal whose text spells no value is a lexical error. -/
theorem next_string_error (herror : lexer.terminalError = none)
    (hrest : lexer.cursor.rest = w ++ (char '"' :: t)) (hw : w.all isSpace = true)
    (h : ∀ raw value rest, Spells raw value → t = raw ++ rest →
      ¬(rest = [] ∨ rest.head? = some (char '"'))) :
    ∃ e lexer', lexer.next = (.error e,lexer') := by
  obtain ⟨c,hskip,hc⟩ := skipTrivia_spaces hrest hw (by simp; decide)
  have hopen := advanceAscii_after hc (by decide)
  have hstring : ConfigLexer.lexToken c = lexString c := by
    unfold ConfigLexer.lexToken
    rw [hc]
    rfl
  cases hread : consumeString [] c.advanceAscii with
  | error e =>
    simp only [ConfigLexer.next,herror,hskip,hstring,lexString,hread,ConfigLexer.fail]
    exact ⟨e,_,rfl⟩
  | ok read =>
    obtain ⟨raw,value,hspells,hraw,-,hend⟩ := consumeString_sound hread
    exact absurd hend (h raw value _ hspells ((hopen.rest hc).symm.trans hraw))

end Strings
end SpareNode.Configuration
