import SpareNode.Configuration.SourcePositions

/-! # The lexical grammar of configurations

Trivia, lexemes and the ways a text can fail to continue either. The lexer reads exactly these: where it
succeeds it has moved over trivia or a lexeme, where it fails it points at the offending sequence.
-/
namespace SpareNode.Configuration
open Utf8

/-- Scalars that stand in a comment: neither a line break nor NUL nor U+FEFF. -/
def CommentText (s : Bytes) : Prop :=
  ∃ scalars : List Scalar, s = encodeAll scalars ∧
    ∀ v ∈ scalars, v.val ≠ 0x0A ∧ v.val ≠ 0x0D ∧ v.val ≠ 0 ∧ v.val ≠ 0xFEFF

/-- Spaces, tabs, line breaks and comments. A comment is ended by a line break, or by the end of the input. -/
inductive Trivia : Bool → Bytes → Prop
  | nil {final : Bool} : Trivia final []
  | space {final : Bool} {b : Byte} {s : Bytes} (hb : b = char ' ' ∨ b = 9 ∨ isLineBreak b = true)
      (h : Trivia final s) : Trivia final (b :: s)
  | comment {final : Bool} {text s : Bytes} {b : Byte} (htext : CommentText text) (hb : isLineBreak b = true)
      (h : Trivia final s) : Trivia final (char '#' :: text ++ b :: s)
  | last {text : Bytes} (htext : CommentText text) : Trivia true (char '#' :: text)

/-- The text of a token, and the value of a string literal. -/
inductive Lexeme : ConfigTokenKind → Bytes → Option Bytes → Prop
  | word {b : Byte} {x : Bytes} (hb : isIdentifierStart b = true) (hx : x.all isIdentifierContinuation = true)
      (hkeyword : b :: x ≠ ascii "true" ∧ b :: x ≠ ascii "false") : Lexeme .identifier (b :: x) none
  | boolean {s : Bytes} (h : s = ascii "true" ∨ s = ascii "false") : Lexeme .booleanLiteral s none
  | integer {b : Byte} {x : Bytes} (h : (b :: x).all isDecimalDigit = true) :
      Lexeme .integerLiteral (b :: x) none
  | string {raw value : Bytes} (h : Spells raw value) :
      Lexeme .stringLiteral (char '"' :: (raw ++ [char '"'])) (some value)
  | mark {b : Byte} {kind : ConfigTokenKind} (hb : punctuation b = some kind) : Lexeme kind [b] none

/-- A token ends where no longer one of its kind is possible. -/
def Ends : ConfigTokenKind → Bytes → Prop
  | .identifier,rest => ∀ b ∈ rest.head?, isIdentifierContinuation b = false
  | .booleanLiteral,rest => ∀ b ∈ rest.head?, isIdentifierContinuation b = false
  | .integerLiteral,rest => ∀ b ∈ rest.head?, isDecimalDigit b = false
  | _,_ => True

/-- What stands in no text: NUL, U+FEFF and bytes that begin no scalar. -/
inductive Malformed : ConfigLexerErrorCode → Bytes → Prop
  | null (t : Bytes) : Malformed .embeddedNull (0 :: t)
  | mark (t : Bytes) : Malformed .unexpectedByteOrderMark (utf8ByteOrderMark ++ t)
  | sequence {s : Bytes} (hne : s ≠ []) (h : decodeOne s = none) : Malformed .invalidUtf8 s

/-- `begun` is what has been read of a token or a comment when the text after it offends. -/
inductive Failure : Bytes → ConfigLexerErrorCode → Bytes → Prop
  | text {code : ConfigLexerErrorCode} {rest : Bytes} (h : Malformed code rest) : Failure [] code rest
  | comment {text rest : Bytes} {code : ConfigLexerErrorCode} (htext : CommentText text)
      (h : Malformed code rest) : Failure (char '#' :: text) code rest
  | character {v : Scalar} {t : Bytes}
      (h : ∀ b ∈ (encode v).head?, beginsToken b = true ∧ isIdentifierStart b = false ∧ isDecimalDigit b = false ∧
        b ≠ char '"' ∧ punctuation b = none) : Failure [] .unexpectedCharacter (encode v ++ t)
  | unterminated {raw value : Bytes} (h : Spells raw value) : Failure [] .unterminatedString (char '"' :: raw)
  | literal {raw value rest : Bytes} {code : ConfigLexerErrorCode} (hraw : Spells raw value)
      (h : Malformed code rest) : Failure (char '"' :: raw) code rest
  | lineBreak {raw value t : Bytes} {b : Byte} (hraw : Spells raw value) (hb : isLineBreak b = true) :
      Failure (char '"' :: raw) .lineBreakInString (b :: t)
  | escape {raw value t : Bytes} {v : Scalar} (hraw : Spells raw value)
      (hv : ∀ b ∈ (encode v).head?, escapedCharacter b = none) :
      Failure (char '"' :: raw) .invalidEscapeSequence (char '\\' :: (encode v ++ t))
  | escapeEnd {raw value : Bytes} (hraw : Spells raw value) :
      Failure (char '"' :: raw) .invalidEscapeSequence [char '\\']
  | escaped {raw value rest : Bytes} {code : ConfigLexerErrorCode} (hraw : Spells raw value)
      (h : Malformed code rest) : Failure (char '"' :: (raw ++ [char '\\'])) code rest
  | escapedBreak {raw value t : Bytes} {b : Byte} (hraw : Spells raw value) (hb : isLineBreak b = true) :
      Failure (char '"' :: (raw ++ [char '\\'])) .lineBreakInString (b :: t)

/-- From `c`, the lexer reports an error at a place it reaches over `x` and `begun`. -/
def FailsAfter (x begun : Bytes) (c : Cursor) (e : ConfigLexerError) : Prop :=
  ∃ c', Moves (x ++ begun) c c' ∧ Failure begun e.code c'.rest ∧ e.location = c'.location

section Scalars
variable {c c' : Cursor} {b : Byte} {s t : Bytes}

theorem hasByteOrderMark_split (h : hasByteOrderMark s = true) : ∃ t, s = utf8ByteOrderMark ++ t := by
  rw [hasByteOrderMark,List.isPrefixOf_iff_prefix] at h
  obtain ⟨t,rfl⟩ := h
  exact ⟨t,rfl⟩

theorem encode_mark {v : Scalar} : encode v = utf8ByteOrderMark ↔ v.val = 0xFEFF := by
  have hmark : encode ⟨0xFEFF,by decide⟩ = utf8ByteOrderMark := by decide +kernel
  constructor
  · intro h
    have heq : encode v ++ [] = encode ⟨0xFEFF,by decide⟩ ++ [] := by rw [h,hmark]
    exact congrArg Subtype.val (encode_append_inj heq).1
  · intro h
    obtain ⟨v,hv⟩ := v
    obtain rfl : v = 0xFEFF := h
    exact hmark

theorem hasByteOrderMark_encode {v : Scalar} : hasByteOrderMark (encode v ++ t) = true ↔ v.val = 0xFEFF := by
  rw [hasByteOrderMark_iff (decodeOne_encode v t),List.take_left]
  exact encode_mark

theorem utf8SequenceLength_encode {v : Scalar} (hc : c.rest = encode v ++ t) :
    c.utf8SequenceLength = (encode v).length := by
  rw [Cursor.utf8SequenceLength,hc,decodeOne_encode]

theorem utf8SequenceLength_zero (h : c.utf8SequenceLength = 0) : decodeOne c.rest = none := by
  cases hread : decodeOne c.rest with
  | none => rfl
  | some scalar =>
    have := (decodeOne_byteCount hread).1
    simp only [Cursor.utf8SequenceLength,hread] at h
    omega

theorem utf8SequenceLength_ne_zero (h : c.utf8SequenceLength ≠ 0) :
    ∃ v t, c.rest = encode v ++ t ∧ c.utf8SequenceLength = (encode v).length := by
  cases hread : decodeOne c.rest with
  | none => simp [Cursor.utf8SequenceLength,hread] at h
  | some scalar =>
    obtain ⟨v,t,hrest,rfl⟩ := decodeOne_iff.mp hread
    exact ⟨v,t,hrest,utf8SequenceLength_encode hrest⟩

/-- A scalar whose first byte is no line break holds none. -/
theorem encode_no_break {v : Scalar} (hhead : ∀ b ∈ (encode v).head?, isLineBreak b = false) :
    ∀ b ∈ encode v, isLineBreak b = false := by
  have hhigh : ∀ b : Byte, 0x80 ≤ b → isLineBreak b = false := forall_byte (by decide +kernel)
  intro b hb
  by_cases hv : v.val < 0x80
  · rw [encode_of_ascii hv] at hhead hb
    rw [List.mem_singleton] at hb
    exact hhead b (by simp [hb])
  · exact hhigh b (encode_high (not_lt.mp hv) hb)

theorem encode_head_ascii {v : Scalar} (hb : b < 0x80) : b ∈ (encode v).head? ↔ v.val = b.toNat := by
  constructor
  · intro hhead
    have hcons : ∃ s, encode v = b :: s := by
      cases hbytes : encode v with
      | nil => exact absurd hbytes (encode_ne_nil v)
      | cons x s =>
        rw [hbytes] at hhead
        exact ⟨s,by rw [Option.some.inj hhead]⟩
    obtain ⟨s,hs⟩ := hcons
    have happ : encode v ++ [] = b :: s := by rw [List.append_nil,hs]
    exact (encode_append_cons hb happ).1
  · intro hv
    have hlt : v.val < 0x80 := hv ▸ hb
    rw [encode_of_ascii hlt,hv,UInt8.ofNat_toNat]
    rfl

end Scalars

section Trivia
variable {c c' : Cursor} {b : Byte} {s t w : Bytes} {e : ConfigLexerError}

theorem CommentText.nil : CommentText [] := ⟨[],rfl,by simp⟩

theorem CommentText.cons {v : Scalar} (hbreak : ∀ b ∈ (encode v).head?, isLineBreak b = false)
    (hzero : v.val ≠ 0) (hmark : v.val ≠ 0xFEFF) (h : CommentText s) : CommentText (encode v ++ s) := by
  obtain ⟨scalars,rfl,hall⟩ := h
  refine ⟨v :: scalars,(encodeAll_cons v scalars).symm,?_⟩
  intro x hx
  rcases List.mem_cons.mp hx with rfl | hx
  · refine ⟨fun hlf => ?_,fun hcr => ?_,hzero,hmark⟩
    · exact absurd (hbreak lf ((encode_head_ascii (by decide)).mpr hlf)) (by decide)
    · exact absurd (hbreak cr ((encode_head_ascii (by decide)).mpr hcr)) (by decide)
  · exact hall x hx

/-- The scalar that the loops of comments and strings pass. -/
theorem passed_scalar {rest : Bytes} (hrest : c.rest = b :: rest) (hbreak : ¬(b = cr || b = lf) = true)
    (hzero : ¬b = 0) (hmark : ¬hasByteOrderMark c.rest = true) (hlength : ¬c.utf8SequenceLength = 0) :
    ∃ v t, c.rest = encode v ++ t ∧ c.utf8SequenceLength = (encode v).length ∧
      (∀ b ∈ (encode v).head?, isLineBreak b = false) ∧ v.val ≠ 0 ∧ v.val ≠ 0xFEFF := by
  obtain ⟨v,t,hv,hcount⟩ := utf8SequenceLength_ne_zero hlength
  have hhead : (encode v).head? = some b := encode_head hv hrest
  refine ⟨v,t,hv,hcount,?_,?_,?_⟩
  · rw [hhead]
    simpa [isLineBreak] using hbreak
  · intro hnull
    have hfirst : (0 : Byte) ∈ (encode v).head? := (encode_head_ascii (by decide)).mpr hnull
    rw [hhead] at hfirst
    exact hzero (Option.some.inj hfirst)
  · intro hv'
    exact hmark (by rw [hv]; exact hasByteOrderMark_encode.mpr hv')

/-- A comment is read to its line break or to the end of the input. -/
theorem skipComment_moves (h : skipComment c = .ok c') :
    ∃ text, CommentText text ∧ Moves text c c' ∧ ∀ b ∈ c'.rest.head?, isLineBreak b = true := by
  fun_induction skipComment c with
  | case1 c hrest =>
    cases h
    exact ⟨[],.nil,Moves.refl _,by simp [hrest]⟩
  | case2 c b rest hrest hbreak =>
    cases h
    exact ⟨[],.nil,Moves.refl _,by simpa [hrest,isLineBreak] using hbreak⟩
  | case3 | case4 | case5 => cases h
  | case6 c b rest hrest hbreak hzero hmark hlength ih =>
    obtain ⟨v,t,hv,hcount,hplain,hnull,hmark⟩ := passed_scalar hrest hbreak hzero hmark hlength
    obtain ⟨text,htext,hmoves,hend⟩ := ih h
    rw [hcount] at hmoves
    exact ⟨encode v ++ text,htext.cons hplain hnull hmark,
      (advanceScalar_moves hv (encode_no_break hplain)).trans hmoves,hend⟩

theorem skipComment_fails (h : skipComment c = .error e) :
    ∃ text c', CommentText text ∧ Moves text c c' ∧ Malformed e.code c'.rest ∧ e.location = c'.location := by
  fun_induction skipComment c with
  | case1 | case2 => cases h
  | case3 c rest hrest hbreak =>
    cases h
    refine ⟨[],c,.nil,Moves.refl c,?_,rfl⟩
    rw [hrest]
    exact .null rest
  | case4 c b rest hrest hbreak hzero hmark =>
    cases h
    obtain ⟨t,ht⟩ := hasByteOrderMark_split hmark
    refine ⟨[],c,.nil,Moves.refl c,?_,rfl⟩
    rw [ht]
    exact .mark t
  | case5 c b rest hrest hbreak hzero hmark hlength =>
    cases h
    exact ⟨[],c,.nil,Moves.refl c,.sequence (by simp [hrest]) (utf8SequenceLength_zero hlength),rfl⟩
  | case6 c b rest hrest hbreak hzero hmark hlength ih =>
    obtain ⟨v,t,hv,hcount,hplain,hnull,hmark⟩ := passed_scalar hrest hbreak hzero hmark hlength
    obtain ⟨text,c',htext,hmoves,hbad,hloc⟩ := ih h
    rw [hcount] at hmoves
    exact ⟨encode v ++ text,c',htext.cons hplain hnull hmark,
      (advanceScalar_moves hv (encode_no_break hplain)).trans hmoves,hbad,hloc⟩

theorem FailsAfter.trans {x y begun : Bytes} (h : Moves x c c') (hfails : FailsAfter y begun c' e) :
    FailsAfter (x ++ y) begun c e := by
  obtain ⟨c'',hmoves,hbad,hloc⟩ := hfails
  refine ⟨c'',?_,hbad,hloc⟩
  rw [List.append_assoc]
  exact h.trans hmoves

theorem trivia_space {final : Bool} {x : Bytes} (hx : LineBreak x) (h : Trivia final w) : Trivia final (x ++ w) := by
  have hcr : isLineBreak cr = true := by decide
  have hlf : isLineBreak lf = true := by decide
  rcases hx with rfl | rfl | rfl
  · exact .space (Or.inr (Or.inr hlf)) h
  · exact .space (Or.inr (Or.inr hcr)) h
  · exact .space (Or.inr (Or.inr hcr)) (.space (Or.inr (Or.inr hlf)) h)

theorem advanceAscii_white (hc : c.rest = b :: t) (hb : b = char ' ' ∨ b = 9 ∨ isLineBreak b = true) :
    ∃ x, Moves x c c.advanceAscii ∧ ∀ final w, Trivia final w → Trivia final (x ++ w) := by
  by_cases hbreak : isLineBreak b = true
  · obtain ⟨x,hx,-,-,hmoves⟩ := advanceAscii_break hc hbreak
    exact ⟨x,hmoves,fun _ _ => trivia_space hx⟩
  · have hascii : b < 0x80 ∧ isLineBreak b = false := by
      rcases hb with rfl | rfl | hb
      · decide
      · decide
      · exact absurd hb hbreak
    exact ⟨[b],advanceAscii_moves hc hascii.1 hascii.2,fun _ _ h => .space hb h⟩

/-- A comment goes on with the line break that ends it. -/
theorem Trivia.after_comment {final : Bool} {text : Bytes} (htext : CommentText text) (h : Trivia final w)
    (hne : w ≠ []) (hend : ∀ b ∈ w.head?, isLineBreak b = true) : Trivia final (char '#' :: text ++ w) := by
  cases h with
  | nil => exact absurd rfl hne
  | space hb h => exact .comment htext (hend _ rfl) h
  | comment htext' hb h => exact absurd (hend _ rfl) (by decide)
  | last htext' => exact absurd (hend _ rfl) (by decide)

/-- Trivia is skipped up to the end of the input or to a byte that begins none. -/
theorem skipTrivia_moves (h : skipTrivia c = .ok c') :
    ∃ w, Trivia (c'.rest.isEmpty) w ∧ Moves w c c' ∧ ∀ b ∈ c'.rest.head?, beginsToken b = true := by
  fun_induction skipTrivia c with
  | case1 c hrest =>
    cases h
    exact ⟨[],.nil,Moves.refl _,by simp [hrest]⟩
  | case2 c b rest hrest hspace ih =>
    obtain ⟨w,hw,hmoves,hend⟩ := ih h
    have hwhite : b = char ' ' ∨ b = 9 ∨ isLineBreak b = true := by
      simpa [isLineBreak,or_assoc] using hspace
    obtain ⟨x,hx,htrivia⟩ := advanceAscii_white hrest hwhite
    exact ⟨x ++ w,htrivia _ w hw,hx.trans hmoves,hend⟩
  | case3 c b rest hrest hspace hhash =>
    cases h
    refine ⟨[],.nil,Moves.refl _,?_⟩
    rw [hrest]
    simpa [beginsToken,hhash] using hspace
  | case4 => cases h
  | case5 c b rest hrest hspace hhash c₁ hskip ih =>
    obtain rfl : b = char '#' := by simpa using hhash
    obtain ⟨text,htext,hcomment,hend⟩ := skipComment_moves hskip
    obtain ⟨w,hw,hmoves,hstop⟩ := ih h
    have hopen := advanceAscii_moves hrest (by decide) (by decide)
    refine ⟨[char '#'] ++ text ++ w,?_,(hopen.trans hcomment).trans hmoves,hstop⟩
    have hrest₁ : c₁.rest = w ++ c'.rest := hmoves.1.1
    cases w with
    | nil =>
      -- the comment is the end of the input: what follows it would be a line break
      have hnil : c'.rest = [] := by
        cases hrest' : c'.rest with
        | nil => rfl
        | cons y s =>
          have hbreak := hend y (by rw [hrest₁,hrest']; rfl)
          have htoken := hstop y (by rw [hrest']; rfl)
          exact absurd htoken (by
            simp only [isLineBreak,Bool.or_eq_true,decide_eq_true_eq] at hbreak
            rcases hbreak with rfl | rfl <;> decide)
      rw [hnil,List.append_nil]
      exact .last htext
    | cons y w =>
      apply hw.after_comment htext (by simp)
      intro b hb
      exact hend b (by rw [hrest₁]; exact hb)

/-- An error of `skip_trivia` stands in a comment. -/
theorem skipTrivia_fails (h : skipTrivia c = .error e) :
    ∃ w text, Trivia false w ∧ FailsAfter w (char '#' :: text) c e := by
  fun_induction skipTrivia c with
  | case1 | case3 => cases h
  | case2 c b rest hrest hspace ih =>
    obtain ⟨w,text,hw,hfails⟩ := ih h
    have hwhite : b = char ' ' ∨ b = 9 ∨ isLineBreak b = true := by
      simpa [isLineBreak,or_assoc] using hspace
    obtain ⟨x,hx,htrivia⟩ := advanceAscii_white hrest hwhite
    exact ⟨x ++ w,text,htrivia _ w hw,hfails.trans hx⟩
  | case4 c b rest hrest hspace hhash e' hskip =>
    cases h
    obtain rfl : b = char '#' := by simpa using hhash
    obtain ⟨text,c',htext,hmoves,hbad,hloc⟩ := skipComment_fails hskip
    have hopen := advanceAscii_moves hrest (by decide) (by decide)
    exact ⟨[],text,.nil,c',hopen.trans hmoves,.comment htext hbad,hloc⟩
  | case5 c b rest hrest hspace hhash c₁ hskip ih =>
    obtain rfl : b = char '#' := by simpa using hhash
    obtain ⟨text,htext,hcomment,hend⟩ := skipComment_moves hskip
    obtain ⟨w,text',hw,hfails⟩ := ih h
    have hopen := advanceAscii_moves hrest (by decide) (by decide)
    refine ⟨[char '#'] ++ text ++ w,text',?_,hfails.trans (hopen.trans hcomment)⟩
    obtain ⟨c',hmoves,-⟩ := hfails
    have hrest₁ : c₁.rest = w ++ char '#' :: text' ++ c'.rest := hmoves.1.1
    cases w with
    | nil => exact absurd (hend (char '#') (by rw [hrest₁]; rfl)) (by decide)
    | cons y w =>
      apply hw.after_comment htext (by simp)
      intro b hb
      exact hend b (by rw [hrest₁]; exact hb)

end Trivia

section Tokens
variable {c c' : Cursor} {b : Byte} {s t raw value decoded decoded' : Bytes} {e : ConfigLexerError}

theorem Spells.append {raw' value' : Bytes} (h : Spells raw value) (h' : Spells raw' value') :
    Spells (raw ++ raw') (value ++ value') := by
  induction h with
  | nil => exact h'
  | scalar hx _ ih =>
    rw [List.append_assoc,List.append_assoc]
    exact .scalar hx ih
  | escape hb _ ih => exact .escape hb ih

theorem plainScalar_iff {x : Bytes} : PlainScalar x ↔
    ∃ v : Scalar, x = encode v ∧ v.val ≠ 0x0D ∧ v.val ≠ 0x0A ∧ v.val ≠ 0 ∧ v.val ≠ 0x22 ∧ v.val ≠ 0x5C ∧
      v.val ≠ 0xFEFF := by
  constructor
  · rintro ⟨⟨n,hread⟩,hplain,hmark⟩
    obtain ⟨v,t,hx,hscalar⟩ := decodeOne_iff.mp hread
    have hlength : x.length = (encode v).length := congrArg DecodedScalar.byteCount hscalar
    have hnil : t = [] := by
      rw [hx,List.length_append] at hlength
      exact List.length_eq_zero_iff.mp (by omega)
    rw [hnil,List.append_nil] at hx
    subst hx
    refine ⟨v,rfl,?_,?_,?_,?_,?_,fun hv => hmark (encode_mark.mpr hv)⟩
    · exact fun hv => (hplain cr ((encode_head_ascii (by decide)).mpr hv)).1 rfl
    · exact fun hv => (hplain lf ((encode_head_ascii (by decide)).mpr hv)).2.1 rfl
    · exact fun hv => (hplain 0 ((encode_head_ascii (by decide)).mpr hv)).2.2.1 rfl
    · exact fun hv => (hplain (char '"') ((encode_head_ascii (by decide)).mpr hv)).2.2.2.1 rfl
    · exact fun hv => (hplain (char '\\') ((encode_head_ascii (by decide)).mpr hv)).2.2.2.2 rfl
  · rintro ⟨v,rfl,hcr,hlf,hnull,hquote,hbackslash,hmark⟩
    have hread := decodeOne_encode v []
    rw [List.append_nil] at hread
    refine ⟨⟨v.val,hread⟩,?_,fun h => hmark (encode_mark.mp h)⟩
    rintro b hb
    refine ⟨?_,?_,?_,?_,?_⟩ <;> rintro rfl <;> rw [encode_head_ascii (by decide)] at hb
    · exact hcr hb
    · exact hlf hb
    · exact hnull hb
    · exact hquote hb
    · exact hbackslash hb

theorem consumeEscape_moves (hrest : c.rest = char '\\' :: s) (h : consumeEscape decoded c = .ok (decoded',c')) :
    ∃ x y, Spells x y ∧ Moves x c c' ∧ decoded' = decoded ++ y := by
  have hstep := advanceAscii_moves hrest (by decide) (by decide)
  simp only [consumeEscape] at h
  split at h
  · cases h
  · rename_i y rest hnext
    repeat' split at h
    all_goals cases h
    rename_i hbreak _ _ x hy
    obtain ⟨-,hcr,hlf,hascii,-⟩ := escapedCharacter_ascii hy
    have hsecond := advanceAscii_moves hnext hascii (by simp [isLineBreak,hcr,hlf])
    exact ⟨[char '\\',y],[x],.escape hy .nil,hstep.trans hsecond,rfl⟩

theorem consumeStringCharacter_moves (hrest : c.rest = b :: s) (hquote : b ≠ char '"')
    (h : consumeStringCharacter decoded c = .ok (decoded',c')) :
    ∃ x y, Spells x y ∧ Moves x c c' ∧ decoded' = decoded ++ y := by
  unfold consumeStringCharacter at h
  rw [hrest] at h
  dsimp only at h
  rw [← hrest] at h
  split at h
  · cases h
  · rename_i hbreak
    split at h
    · cases h
    · rename_i hnull
      split at h
      · cases h
      · rename_i hmark
        split at h
        · rename_i hbackslash
          rw [hbackslash] at hrest
          exact consumeEscape_moves hrest h
        · rename_i hbackslash
          split at h
          · cases h
          · rename_i hlength
            obtain ⟨v,t,hv,hcount,hplain,hzero,hmark'⟩ := passed_scalar hrest hbreak hnull hmark hlength
            have hmoves := advanceScalar_moves hv (encode_no_break hplain)
            rw [hcount,hv,List.take_left] at h
            cases h
            have hhead : (encode v).head? = some b := encode_head hv hrest
            have hscalar : PlainScalar (encode v) := by
              have hread := decodeOne_encode v []
              rw [List.append_nil] at hread
              refine ⟨⟨v.val,hread⟩,?_,fun hbytes => hmark' (encode_mark.mp hbytes)⟩
              intro y hy
              rw [hhead] at hy
              obtain rfl := Option.some.inj hy
              simp only [Bool.or_eq_true,decide_eq_true_eq,not_or] at hbreak
              exact ⟨hbreak.1,hbreak.2,hnull,hquote,hbackslash⟩
            have hspells : Spells (encode v) (encode v) := by
              simpa using Spells.scalar hscalar .nil
            exact ⟨_,_,hspells,hmoves,rfl⟩

/-- An error inside a literal, wherever the literal has begun. -/
def LiteralFails (c : Cursor) (e : ConfigLexerError) : Prop :=
  ∃ x c', Moves x c c' ∧ e.location = c'.location ∧
    ∀ raw value, Spells raw value → Failure (char '"' :: (raw ++ x)) e.code c'.rest

theorem LiteralFails.here (hloc : e.location = c.location)
    (h : ∀ raw value, Spells raw value → Failure (char '"' :: raw) e.code c.rest) : LiteralFails c e :=
  ⟨[],c,Moves.refl c,hloc,fun raw value hraw => by rw [List.append_nil]; exact h raw value hraw⟩

theorem malformed_mark (h : hasByteOrderMark s = true) : Malformed .unexpectedByteOrderMark s := by
  obtain ⟨t,rfl⟩ := hasByteOrderMark_split h
  exact .mark t

theorem consumeEscape_fails (hrest : c.rest = char '\\' :: s) (h : consumeEscape decoded c = .error e) :
    LiteralFails c e := by
  have hstep := advanceAscii_moves hrest (by decide) (by decide)
  have hafter : c.rest = char '\\' :: c.advanceAscii.rest := hstep.1.1
  simp only [consumeEscape] at h
  split at h
  · rename_i hnil
    cases h
    refine .here rfl fun raw value hraw => ?_
    rw [hafter,hnil]
    exact .escapeEnd hraw
  · rename_i y rest hnext
    -- the errors after the backslash
    have hnext' (code : ConfigLexerErrorCode) (hloc : e.location = c.advanceAscii.location) (hcode : e.code = code)
        (hbad : ∀ raw value, Spells raw value →
          Failure (char '"' :: (raw ++ [char '\\'])) code c.advanceAscii.rest) : LiteralFails c e :=
      ⟨[char '\\'],c.advanceAscii,hstep,hloc,hcode ▸ hbad⟩
    split at h
    · rename_i hnull
      cases h
      refine hnext' _ rfl rfl fun raw value hraw => .escaped hraw ?_
      rw [hnext,hnull]
      exact .null rest
    · split at h
      · rename_i hbreak
        cases h
        refine hnext' _ rfl rfl fun raw value hraw => ?_
        rw [hnext]
        exact .escapedBreak hraw (by simpa [isLineBreak] using hbreak)
      · split at h
        · rename_i hmark
          cases h
          exact hnext' _ rfl rfl fun raw value hraw => .escaped hraw (malformed_mark hmark)
        · split at h
          · rename_i hlength
            cases h
            exact hnext' _ rfl rfl fun raw value hraw =>
              .escaped hraw (.sequence (by simp [hnext]) (utf8SequenceLength_zero hlength))
          · rename_i hlength
            split at h
            · rename_i hescape
              cases h
              refine .here rfl fun raw value hraw => ?_
              obtain ⟨v,t,hv,-⟩ := utf8SequenceLength_ne_zero hlength
              have hhead : (encode v).head? = some y := encode_head hv hnext
              rw [hafter,hv]
              refine .escape hraw ?_
              intro b hb
              rw [hhead] at hb
              obtain rfl := Option.some.inj hb
              exact hescape
            · cases h

theorem consumeStringCharacter_fails (hrest : c.rest = b :: s) (h : consumeStringCharacter decoded c = .error e) :
    LiteralFails c e := by
  unfold consumeStringCharacter at h
  rw [hrest] at h
  dsimp only at h
  rw [← hrest] at h
  split at h
  · rename_i hbreak
    cases h
    refine .here rfl fun raw value hraw => ?_
    rw [hrest]
    exact .lineBreak hraw (by simpa [isLineBreak] using hbreak)
  · split at h
    · rename_i hnull
      cases h
      refine .here rfl fun raw value hraw => .literal hraw ?_
      rw [hrest,hnull]
      exact .null s
    · split at h
      · rename_i hmark
        cases h
        exact .here rfl fun raw value hraw => .literal hraw (malformed_mark hmark)
      · split at h
        · rename_i hbackslash
          rw [hbackslash] at hrest
          exact consumeEscape_fails hrest h
        · split at h
          · rename_i hlength
            cases h
            exact .here rfl fun raw value hraw =>
              .literal hraw (.sequence (by simp [hrest]) (utf8SequenceLength_zero hlength))
          · cases h

theorem consumeString_moves (h : consumeString decoded c = .ok (decoded',c')) :
    ∃ raw value, Spells raw value ∧ Moves raw c c' ∧ decoded' = decoded ++ value ∧
      ∀ b ∈ c'.rest.head?, b = char '"' := by
  fun_induction consumeString decoded c with
  | case1 decoded c hrest =>
    cases h
    exact ⟨[],[],.nil,Moves.refl _,(List.append_nil _).symm,by simp [hrest]⟩
  | case2 decoded c rest hrest =>
    cases h
    exact ⟨[],[],.nil,Moves.refl _,(List.append_nil _).symm,by simp [hrest]⟩
  | case3 decoded c b rest hrest hb e he => cases h
  | case4 decoded c b rest hrest hb d₁ c₁ hstep ih =>
    obtain ⟨x,y,hxy,hmoves,rfl⟩ := consumeStringCharacter_moves hrest hb hstep
    obtain ⟨raw,value,hraw,hmore,hvalue,hend⟩ := ih h
    exact ⟨x ++ raw,y ++ value,hxy.append hraw,hmoves.trans hmore,by rw [hvalue,List.append_assoc],hend⟩

theorem consumeString_fails (h : consumeString decoded c = .error e) : LiteralFails c e := by
  fun_induction consumeString decoded c with
  | case1 | case2 => cases h
  | case3 decoded c b rest hrest hb e' he =>
    cases h
    exact consumeStringCharacter_fails hrest he
  | case4 decoded c b rest hrest hb d₁ c₁ hstep ih =>
    obtain ⟨x,y,hxy,hmoves,-⟩ := consumeStringCharacter_moves hrest hb hstep
    obtain ⟨x',c',hmore,hloc,hbad⟩ := ih h
    refine ⟨x ++ x',c',hmoves.trans hmore,hloc,fun raw value hraw => ?_⟩
    rw [← List.append_assoc]
    exact hbad _ _ (hraw.append hxy)

theorem advanceWhile_moves {p : Byte → Bool} (hp : ∀ b, p b = true → b < 0x80 ∧ isLineBreak b = false) (c : Cursor) :
    ∃ x, x.all p = true ∧ Moves x c (advanceWhile p c) ∧ ∀ b ∈ (advanceWhile p c).rest.head?, p b = false := by
  fun_induction advanceWhile p c with
  | case1 c hrest => exact ⟨[],rfl,Moves.refl _,by simp [hrest]⟩
  | case2 c b rest hrest hb ih =>
    obtain ⟨x,hx,hmoves,hend⟩ := ih
    obtain ⟨hascii,hbreak⟩ := hp b hb
    exact ⟨b :: x,by simp [hb,hx],(advanceAscii_moves hrest hascii hbreak).trans hmoves,hend⟩
  | case3 c b rest hrest hb => exact ⟨[],rfl,Moves.refl _,by simpa [hrest] using hb⟩

theorem identifier_ascii : ∀ b, isIdentifierContinuation b = true → b < 0x80 ∧ isLineBreak b = false :=
  forall_byte (by decide +kernel)

theorem digit_ascii : ∀ b, isDecimalDigit b = true → b < 0x80 ∧ isLineBreak b = false :=
  forall_byte (by decide +kernel)

/-- `token` has been read from `c` to `c'`. -/
structure Reads (c : Cursor) (token : ConfigToken) (c' : Cursor) : Prop where
  lexeme : Lexeme token.kind token.lexeme token.decodedString
  moves : Moves token.lexeme c c'
  ends : Ends token.kind c'.rest
  location : token.location = c.location

theorem lexIdentifier_reads (hrest : c.rest = b :: s) (hb : isIdentifierStart b = true) :
    Reads c (lexIdentifier c).1 (lexIdentifier c).2 := by
  have hstart : isIdentifierContinuation b = true := by simp [isIdentifierContinuation,hb]
  obtain ⟨x,hx,hmoves,hend⟩ := advanceWhile_moves identifier_ascii c.advanceAscii
  have hword := (advanceAscii_moves hrest (identifier_ascii b hstart).1 (identifier_ascii b hstart).2).trans hmoves
  have hlexeme : consumed c (advanceWhile isIdentifierContinuation c.advanceAscii) = b :: x :=
    consumed_after hword.1
  unfold lexIdentifier
  dsimp only
  rw [hlexeme]
  split
  · rename_i hkeyword
    exact ⟨.boolean (by simpa using hkeyword),hword,hend,rfl⟩
  · rename_i hkeyword
    exact ⟨.word hb hx (by simpa using hkeyword),hword,hend,rfl⟩

theorem lexInteger_reads (hrest : c.rest = b :: s) (hb : isDecimalDigit b = true) :
    Reads c (lexInteger c).1 (lexInteger c).2 := by
  obtain ⟨x,hx,hmoves,hend⟩ := advanceWhile_moves digit_ascii c.advanceAscii
  have hdigits := (advanceAscii_moves hrest (digit_ascii b hb).1 (digit_ascii b hb).2).trans hmoves
  have hlexeme : consumed c (advanceWhile isDecimalDigit c.advanceAscii) = b :: x := consumed_after hdigits.1
  unfold lexInteger
  dsimp only
  rw [hlexeme]
  exact ⟨.integer (by simp [hb,hx]),hdigits,hend,rfl⟩

theorem punctuation_ascii : ∀ b, punctuation b ≠ none → b < 0x80 ∧ isLineBreak b = false :=
  forall_byte (by decide +kernel)

theorem lexPunctuation_reads {kind : ConfigTokenKind} (hrest : c.rest = b :: s) (hb : punctuation b = some kind) :
    Reads c (lexPunctuation kind c).1 (lexPunctuation kind c).2 := by
  obtain ⟨hascii,hbreak⟩ := punctuation_ascii b (by simp [hb])
  have hmoves := advanceAscii_moves hrest hascii hbreak
  unfold lexPunctuation
  rw [hrest]
  refine ⟨.mark hb,hmoves,?_,rfl⟩
  rcases punctuation_cases hb with ⟨-,rfl⟩ | ⟨-,rfl⟩ | ⟨-,rfl⟩ <;> trivial

theorem lexString_reads {token : ConfigToken} (hrest : c.rest = char '"' :: s) (h : lexString c = .ok (token,c')) :
    Reads c token c' := by
  unfold lexString at h
  split at h
  · cases h
  · rename_i decoded stop hread
    split at h
    · cases h
    · rename_i y rest hstop
      obtain ⟨raw,value,hraw,hmoves,hvalue,hend⟩ := consumeString_moves hread
      obtain rfl : y = char '"' := hend y (by simp [hstop])
      have hopen := advanceAscii_moves hrest (by decide) (by decide)
      have hclose := advanceAscii_moves hstop (by decide) (by decide)
      have hall := (hopen.trans hmoves).trans hclose
      have hlexeme : consumed c stop.advanceAscii = char '"' :: (raw ++ [char '"']) := consumed_after hall.1
      cases h
      rw [hlexeme,hvalue]
      exact ⟨.string hraw,hall,trivial,rfl⟩

theorem lexString_fails (hrest : c.rest = char '"' :: s) (h : lexString c = .error e) :
    ∃ begun, FailsAfter [] begun c e := by
  have hopen := advanceAscii_moves hrest (by decide) (by decide)
  unfold lexString at h
  split at h
  · rename_i e' hread
    cases h
    obtain ⟨x,c',hmoves,hloc,hbad⟩ := consumeString_fails hread
    exact ⟨char '"' :: x,c',hopen.trans hmoves,hbad [] [] .nil,hloc⟩
  · rename_i decoded stop hread
    split at h
    · rename_i hstop
      cases h
      obtain ⟨raw,value,hraw,hmoves,-,-⟩ := consumeString_moves hread
      have hrest' : c.rest = char '"' :: raw := by
        rw [(hopen.trans hmoves).1.1,hstop,List.append_nil]
        rfl
      refine ⟨[],c,Moves.refl c,?_,rfl⟩
      rw [hrest']
      exact .unterminated hraw
    · cases h

/-- The kinds of first bytes that `next` tells apart. -/
theorem lexToken_cons (hrest : c.rest = b :: s) : ConfigLexer.lexToken c =
    if isIdentifierStart b then .ok (lexIdentifier c)
    else if isDecimalDigit b then .ok (lexInteger c)
    else if b = char '"' then lexString c
    else match punctuation b with
      | some kind => .ok (lexPunctuation kind c)
      | none =>
        if b = 0 then .error (c.error .embeddedNull)
        else if hasByteOrderMark c.rest then .error (c.error .unexpectedByteOrderMark 3)
        else if c.utf8SequenceLength = 0 then .error (c.error .invalidUtf8)
        else .error (c.error .unexpectedCharacter c.utf8SequenceLength) := by
  simp only [ConfigLexer.lexToken,hrest,punctuation]
  by_cases hopen : b = 0x7B
  · simp [hopen]
  · by_cases hclose : b = 0x7D
    · simp [hclose]
    · by_cases hsemicolon : b = char ';'
      · simp only [hsemicolon,if_true]
        rfl
      · simp [hopen,hclose,hsemicolon]

theorem lexToken_reads {token : ConfigToken} (hrest : c.rest = b :: s)
    (h : ConfigLexer.lexToken c = .ok (token,c')) : Reads c token c' := by
  rw [lexToken_cons hrest] at h
  split at h
  · rename_i hb
    have hreads := lexIdentifier_reads hrest hb
    rwa [Except.ok.inj h] at hreads
  · split at h
    · rename_i hb
      have hreads := lexInteger_reads hrest hb
      rwa [Except.ok.inj h] at hreads
    · split at h
      · rename_i hb
        rw [hb] at hrest
        exact lexString_reads hrest h
      · split at h
        · rename_i kind hb
          have hreads := lexPunctuation_reads hrest hb
          rwa [Except.ok.inj h] at hreads
        · repeat' split at h
          all_goals cases h

theorem lexToken_fails (hrest : c.rest = b :: s) (hbegins : beginsToken b = true)
    (h : ConfigLexer.lexToken c = .error e) : ∃ begun, FailsAfter [] begun c e := by
  rw [lexToken_cons hrest] at h
  split at h
  · cases h
  · rename_i hword
    split at h
    · cases h
    · rename_i hdigit
      split at h
      · rename_i hb
        rw [hb] at hrest
        exact lexString_fails hrest h
      · rename_i hquote
        split at h
        · cases h
        · rename_i hmark
          split at h
          · rename_i hnull
            cases h
            refine ⟨[],c,Moves.refl c,.text ?_,rfl⟩
            rw [hrest,hnull]
            exact .null s
          · split at h
            · rename_i hbom
              cases h
              exact ⟨[],c,Moves.refl c,.text (malformed_mark hbom),rfl⟩
            · split at h
              · rename_i hlength
                cases h
                exact ⟨[],c,Moves.refl c,.text (.sequence (by simp [hrest]) (utf8SequenceLength_zero hlength)),rfl⟩
              · rename_i hlength
                cases h
                obtain ⟨v,t,hv,-⟩ := utf8SequenceLength_ne_zero hlength
                have hhead : (encode v).head? = some b := encode_head hv hrest
                refine ⟨[],c,Moves.refl c,?_,rfl⟩
                rw [hv]
                refine .character ?_
                intro y hy
                rw [hhead] at hy
                obtain rfl := Option.some.inj hy
                exact ⟨hbegins,by simpa using hword,by simpa using hdigit,hquote,hmark⟩

end Tokens
end SpareNode.Configuration
