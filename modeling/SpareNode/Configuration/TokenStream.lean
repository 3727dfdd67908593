import SpareNode.Configuration.ConfigGrammar

/-! # The symbols ahead of the parser

A parser state stands before a list of symbols when its current token is the first of them and the rest
of the input writes the others. Advancing takes one symbol away, in both directions.
-/
namespace SpareNode.Configuration
open Utf8

def Symbol.kind : Symbol → ConfigTokenKind
  | .word _ => .identifier
  | .string _ => .stringLiteral
  | .integer _ => .integerLiteral
  | .boolean _ => .booleanLiteral
  | .leftBrace => .leftBrace
  | .rightBrace => .rightBrace
  | .semicolon => .semicolon

structure Symbol.Matches (s : Symbol) (token : ConfigToken) : Prop where
  kind : token.kind = s.kind
  prints : Prints s token.lexeme
  decoded : ∀ value, s = .string value → token.decodedString = some value

/-- The state stands before the symbols; with none left it is at the end of the input. -/
def Stream (p : ParserState) : List Symbol → Prop
  | [] => p.current.kind = .endOfInput
  | s :: symbols => s.Matches p.current ∧ p.lexer.terminalError = none ∧
      Written (some s) symbols p.lexer.cursor.rest

/-- The current token has been read by the lexer. -/
def Fresh (p : ParserState) : Prop := ∃ lexer, ParserState.advance lexer = .ok p

section Lexemes
variable {kind : ConfigTokenKind} {x : Bytes} {decoded : Option Bytes}

theorem Lexeme.of_word (h : Lexeme kind x decoded) (hkind : kind = .identifier) :
    ∃ b y, x = b :: y ∧ isIdentifierStart b = true ∧ Lexeme .identifier x none := by
  cases h with
  | word hb hx hkeyword => exact ⟨_,_,rfl,hb,.word hb hx hkeyword⟩
  | mark hb => rcases punctuation_cases hb with ⟨-,rfl⟩ | ⟨-,rfl⟩ | ⟨-,rfl⟩ <;> cases hkind
  | _ => cases hkind

theorem Lexeme.of_string (h : Lexeme kind x decoded) (hkind : kind = .stringLiteral) :
    ∃ raw value, Spells raw value ∧ x = char '"' :: (raw ++ [char '"']) ∧ decoded = some value := by
  cases h with
  | string h => exact ⟨_,_,h,rfl,rfl⟩
  | mark hb => rcases punctuation_cases hb with ⟨-,rfl⟩ | ⟨-,rfl⟩ | ⟨-,rfl⟩ <;> cases hkind
  | _ => cases hkind

theorem Lexeme.of_integer (h : Lexeme kind x decoded) (hkind : kind = .integerLiteral) :
    x ≠ [] ∧ x.all isDecimalDigit = true := by
  cases h with
  | integer h => exact ⟨by simp,h⟩
  | mark hb => rcases punctuation_cases hb with ⟨-,rfl⟩ | ⟨-,rfl⟩ | ⟨-,rfl⟩ <;> cases hkind
  | _ => cases hkind

theorem Lexeme.of_boolean (h : Lexeme kind x decoded) (hkind : kind = .booleanLiteral) :
    x = ascii "true" ∨ x = ascii "false" := by
  cases h with
  | boolean h => exact h
  | mark hb => rcases punctuation_cases hb with ⟨-,rfl⟩ | ⟨-,rfl⟩ | ⟨-,rfl⟩ <;> cases hkind
  | _ => cases hkind

theorem Lexeme.of_mark (h : Lexeme kind x decoded)
    (hkind : kind = .leftBrace ∨ kind = .rightBrace ∨ kind = .semicolon) :
    ∃ b, x = [b] ∧ punctuation b = some kind := by
  cases h with
  | mark hb => exact ⟨_,rfl,hb⟩
  | _ => simp at hkind

theorem Lexeme.kind_ne (h : Lexeme kind x decoded) : kind ≠ .endOfInput := by
  cases h with
  | mark hb => rcases punctuation_cases hb with ⟨-,rfl⟩ | ⟨-,rfl⟩ | ⟨-,rfl⟩ <;> decide
  | _ => decide

end Lexemes

section Symbols
variable {s : Symbol} {symbols : List Symbol} {x w rest : Bytes} {previous : Option Symbol}

theorem Prints.lexeme (h : Prints s x) :
    ∃ decoded, Lexeme s.kind x decoded ∧ ∀ value, s = .string value → decoded = some value := by
  cases h with
  | word h => exact ⟨none,h,nofun⟩
  | string h => exact ⟨_,.string h,fun value hs => by cases hs; rfl⟩
  | @integer digits value hne hdigits hvalue =>
    obtain ⟨b,y,rfl⟩ := List.exists_cons_of_ne_nil hne
    exact ⟨none,.integer hdigits,nofun⟩
  | @boolean value => exact ⟨none,.boolean (by cases value <;> simp),nofun⟩
  | leftBrace => exact ⟨none,.mark (by decide),nofun⟩
  | rightBrace => exact ⟨none,.mark (by decide),nofun⟩
  | semicolon => exact ⟨none,.mark (by decide),nofun⟩

theorem continuation_of_digit : ∀ b, isDecimalDigit b = true → isIdentifierContinuation b = true :=
  forall_byte (by decide +kernel)

theorem trivia_begins : ∀ b : Byte, (b = char ' ' ∨ b = 9 ∨ isLineBreak b = true) →
    isIdentifierContinuation b = false := forall_byte (by decide +kernel)

theorem Trivia.ends {final : Bool} (hw : Trivia final w) (kind : ConfigTokenKind) (hne : w ≠ [] ∨ rest = []) :
    Ends kind (w ++ rest) := by
  have hhead : ∀ b ∈ (w ++ rest).head?, isIdentifierContinuation b = false := by
    intro b hb
    cases hw with
    | nil =>
      obtain rfl := hne.resolve_left (fun h => h rfl)
      cases hb
    | space hspace =>
      obtain rfl := Option.some.inj hb
      exact trivia_begins _ hspace
    | comment =>
      obtain rfl := Option.some.inj hb
      decide
    | last =>
      obtain rfl := Option.some.inj hb
      decide
  have hdigit : ∀ b ∈ (w ++ rest).head?, isDecimalDigit b = false := by
    intro b hb
    cases hb' : isDecimalDigit b with
    | false => rfl
    | true =>
      have := continuation_of_digit b hb'
      rw [hhead b hb] at this
      cases this
  cases kind with
  | identifier | booleanLiteral => exact hhead
  | integerLiteral => exact hdigit
  | _ => trivial

/-- Whether the first byte of a symbol continues an identifier, and whether it is a digit. -/
def Symbol.firstClass : Symbol → Bool × Bool
  | .word _ | .boolean _ => (true,false)
  | .integer _ => (true,true)
  | _ => (false,false)

theorem Prints.first (h : Prints s x) :
    ∃ b y, x = b :: y ∧ (isIdentifierContinuation b,isDecimalDigit b) = s.firstClass := by
  have hstart : ∀ b, isIdentifierStart b = true → (isIdentifierContinuation b,isDecimalDigit b) = (true,false) :=
    forall_byte (by decide +kernel)
  cases h with
  | word h =>
    obtain ⟨b,y,rfl,hb,-⟩ := h.of_word rfl
    exact ⟨b,y,rfl,hstart b hb⟩
  | string h => exact ⟨_,_,rfl,rfl⟩
  | @integer digits value hne hdigits hvalue =>
    obtain ⟨b,y,rfl⟩ := List.exists_cons_of_ne_nil hne
    have hb : isDecimalDigit b = true := List.all_eq_true.mp hdigits b List.mem_cons_self
    exact ⟨b,y,rfl,by rw [continuation_of_digit b hb,hb]; rfl⟩
  | @boolean value =>
    cases value with
    | false => exact ⟨_,_,rfl,hstart _ (by decide)⟩
    | true => exact ⟨_,_,rfl,hstart _ (by decide)⟩
  | leftBrace => exact ⟨_,_,rfl,by decide⟩
  | rightBrace => exact ⟨_,_,rfl,by decide⟩
  | semicolon => exact ⟨_,_,rfl,by decide⟩

/-- A symbol ends where the next one begins, unless the one would run into the other. -/
theorem Prints.ends_iff (h : Prints s x) (q : Symbol) : Ends q.kind (x ++ rest) ↔ q.runsInto s = false := by
  obtain ⟨b,y,rfl,hclass⟩ := h.first
  obtain ⟨hcontinues,hdigit⟩ := Prod.mk.inj hclass
  cases q <;> cases s <;> simp_all [Ends,Symbol.kind,Symbol.runsInto,Symbol.firstClass]

theorem Written.ends {q : Symbol} (h : Written (some q) symbols rest) : Ends q.kind rest := by
  cases h with
  | finish hw =>
    have hends : Ends q.kind (rest ++ []) := hw.ends q.kind (Or.inr rfl)
    rwa [List.append_nil] at hends
  | @symbol _ s symbols w x rest hw hx hsep h =>
    rw [List.append_assoc]
    by_cases hne : w = []
    · subst hne
      cases hruns : q.runsInto s with
      | false => exact (hx.ends_iff q).mpr hruns
      | true => exact absurd rfl (hsep q rfl hruns)
    · exact hw.ends q.kind (Or.inl hne)

/-- The lexer reads the first of the symbols that are written. -/
theorem advance_written {lexer : ConfigLexer} (herror : lexer.terminalError = none)
    (h : Written previous symbols lexer.cursor.rest) :
    ∃ p, ParserState.advance lexer = .ok p ∧ Stream p symbols := by
  generalize hrest : lexer.cursor.rest = text at h
  cases h with
  | finish hw =>
    obtain ⟨c,hskip,hend⟩ := skipTrivia_trivia (t := []) hw (by rw [hrest,List.append_nil]) (fun _ => rfl) (by simp)
    refine ⟨⟨{ lexer with cursor := c },⟨.endOfInput,[],none,c.location⟩⟩,?_,rfl⟩
    simp only [ParserState.advance,ConfigLexer.next,herror,hskip,ConfigLexer.lexToken,hend]
  | @symbol _ s symbols w x rest hw hx hsep h =>
    obtain ⟨decoded,hlexeme,hdecoded⟩ := hx.lexeme
    have hbegins : ∀ b ∈ (x ++ rest).head?, beginsToken b = true := by
      rw [List.head?_append_of_ne_nil _ hlexeme.ne_nil]
      exact hlexeme.begins
    obtain ⟨c,hskip,hc⟩ := skipTrivia_trivia (t := x ++ rest) hw (by rw [hrest,List.append_assoc])
      (fun h => absurd h Bool.false_ne_true) hbegins
    obtain ⟨c',hlex,hc'⟩ := lexToken_lexeme hlexeme hc h.ends
    refine ⟨⟨{ lexer with cursor := c' },⟨s.kind,x,decoded,c.location⟩⟩,?_,⟨rfl,hx,hdecoded⟩,herror,?_⟩
    · simp only [ParserState.advance,ConfigLexer.next,herror,hskip,hlex]
    · rw [hc']
      exact h

theorem Stream.next {p : ParserState} (h : Stream p (s :: symbols)) :
    s.Matches p.current ∧ ∃ p', ParserState.advance p.lexer = .ok p' ∧ Stream p' symbols :=
  ⟨h.1,advance_written h.2.1 h.2.2⟩

theorem advance_cases {lexer : ConfigLexer} {p : ParserState} (h : ParserState.advance lexer = .ok p) :
    lexer.terminalError = none ∧ p.lexer.terminalError = none ∧
    ((p.current.kind = .endOfInput ∧ Trivia true lexer.cursor.rest) ∨
      ∃ w, Trivia false w ∧ lexer.cursor.rest = w ++ p.current.lexeme ++ p.lexer.cursor.rest ∧
        Lexeme p.current.kind p.current.lexeme p.current.decodedString ∧ Ends p.current.kind p.lexer.cursor.rest) := by
  have hnext := ParserState.advance_ok h
  have herror : lexer.terminalError = none := by
    cases hterminal : lexer.terminalError with
    | none => rfl
    | some e =>
      rw [next_of_error hterminal] at hnext
      cases hnext
  refine ⟨herror,?_⟩
  cases next_step herror with
  | error _ _ hstep =>
    rw [hstep] at hnext
    cases hnext
  | endOfInput hw hmoves hend hstep =>
    rw [hstep] at hnext
    obtain ⟨hcurrent,hlexer⟩ := Prod.mk.inj hnext
    rw [← Except.ok.inj hcurrent,← hlexer]
    refine ⟨herror,Or.inl ⟨rfl,?_⟩⟩
    rw [hmoves.1.1,hend,List.append_nil]
    exact hw
  | token hw hmoves hreads hstep =>
    rw [hstep] at hnext
    obtain ⟨hcurrent,hlexer⟩ := Prod.mk.inj hnext
    rw [← Except.ok.inj hcurrent,← hlexer]
    refine ⟨herror,Or.inr ⟨_,hw,?_,hreads.lexeme,hreads.ends⟩⟩
    rw [hmoves.1.1,hreads.moves.1.1,List.append_assoc]

/-- What has been read is written: the symbols after the advance follow the previous one. -/
theorem written_advance {lexer : ConfigLexer} {p : ParserState} (h : ParserState.advance lexer = .ok p)
    (hends : ∀ q ∈ previous, Ends q.kind lexer.cursor.rest) (hstream : Stream p symbols) :
    Written previous symbols lexer.cursor.rest := by
  obtain ⟨-,-,⟨hkind,hw⟩ | ⟨w,hw,hrest,hlexeme,-⟩⟩ := advance_cases h
  · cases symbols with
    | nil => exact .finish hw
    | cons s symbols =>
      have hmatch := hstream.1.kind
      rw [hkind] at hmatch
      cases s <;> cases hmatch
  · cases symbols with
    | nil => exact absurd hstream hlexeme.kind_ne
    | cons s symbols =>
      obtain ⟨hmatch,-,hwritten⟩ := hstream
      rw [hrest]
      refine .symbol hw hmatch.prints ?_ hwritten
      rintro q hq hruns rfl
      have hend := hends q hq
      rw [hrest,List.nil_append,hmatch.prints.ends_iff q,hruns] at hend
      cases hend

/-- The current token and what stands before the next state. -/
theorem Stream.cons {p p' : ParserState} (hp : Fresh p) (hmatch : s.Matches p.current)
    (h : ParserState.advance p.lexer = .ok p') (hstream : Stream p' symbols) : Stream p (s :: symbols) := by
  obtain ⟨lexer,hread⟩ := hp
  obtain ⟨-,herror,⟨hkind,-⟩ | ⟨w,-,-,-,hends⟩⟩ := advance_cases hread
  · rw [hmatch.kind] at hkind
    cases s <;> cases hkind
  · refine ⟨hmatch,herror,written_advance h ?_ hstream⟩
    intro q hq
    obtain rfl := Option.some.inj hq
    rw [← hmatch.kind]
    exact hends

end Symbols

section Tokens
variable {p : ParserState}

theorem Fresh.lexeme (hp : Fresh p) (hkind : p.current.kind ≠ .endOfInput) :
    Lexeme p.current.kind p.current.lexeme p.current.decodedString := by
  obtain ⟨lexer,hread⟩ := hp
  obtain ⟨-,-,⟨hend,-⟩ | ⟨w,-,-,hlexeme,-⟩⟩ := advance_cases hread
  · exact absurd hend hkind
  · exact hlexeme

theorem Fresh.word (hp : Fresh p) (hkind : p.current.kind = .identifier) :
    (Symbol.word p.current.lexeme).Matches p.current := by
  obtain ⟨-,-,-,-,hlexeme⟩ := (hp.lexeme (by simp [hkind])).of_word hkind
  exact ⟨hkind,.word hlexeme,nofun⟩

theorem Fresh.string (hp : Fresh p) (hkind : p.current.kind = .stringLiteral) :
    (Symbol.string (p.current.decodedString.getD [])).Matches p.current := by
  obtain ⟨raw,value,hspells,hlexeme,hdecoded⟩ := (hp.lexeme (by simp [hkind])).of_string hkind
  refine ⟨hkind,?_,?_⟩
  · rw [hlexeme,hdecoded]
    exact .string hspells
  · intro value' hvalue
    rw [← Symbol.string.inj hvalue,hdecoded]
    rfl

theorem Fresh.mark (hp : Fresh p) {s : Symbol} (hs : s = .leftBrace ∨ s = .rightBrace ∨ s = .semicolon)
    (hkind : p.current.kind = s.kind) : s.Matches p.current := by
  have hmark : p.current.kind = .leftBrace ∨ p.current.kind = .rightBrace ∨ p.current.kind = .semicolon := by
    rw [hkind]
    rcases hs with rfl | rfl | rfl <;> simp [Symbol.kind]
  have hne : p.current.kind ≠ .endOfInput := by
    rcases hmark with h | h | h <;> simp [h]
  obtain ⟨b,hlexeme,hb⟩ := (hp.lexeme hne).of_mark hmark
  rw [hkind] at hb
  refine ⟨hkind,?_,?_⟩
  · rw [hlexeme]
    rcases punctuation_cases hb with ⟨rfl,h⟩ | ⟨rfl,h⟩ | ⟨rfl,h⟩ <;> rcases hs with rfl | rfl | rfl <;> cases h
    · exact .leftBrace
    · exact .rightBrace
    · exact .semicolon
  · rcases hs with rfl | rfl | rfl <;> nofun

theorem decimal_digit : ∀ b, isDecimalDigit b = isDigit 10 b := forall_byte (by decide +kernel)

theorem decimal_digits (s : Bytes) : s.all isDecimalDigit = s.all (isDigit 10) := by
  apply congrArg s.all
  funext b
  exact decimal_digit b

/-- The value of a token is the one it writes. -/
theorem scalar_matches {scalar : ParsedConfigScalar} (hp : Fresh p)
    (hkind : p.current.kind = tokenKindFor scalar.expectation)
    (h : p.scalar (tokenKindFor scalar.expectation) = some scalar) : scalar.symbol.Matches p.current := by
  cases scalar with
  | string value =>
    have hvalue : p.current.decodedString.getD [] = value := by simpa [ParserState.scalar,tokenKindFor,
      ParsedConfigScalar.expectation] using h
    have hmatch := hp.string hkind
    rwa [hvalue] at hmatch
  | integer value =>
    obtain ⟨hne,hdigits⟩ := (hp.lexeme (by simp [hkind,tokenKindFor,ParsedConfigScalar.expectation])).of_integer hkind
    simp only [ParserState.scalar,tokenKindFor,ParsedConfigScalar.expectation,reduceCtorEq,if_false] at h
    split at h
    · rename_i integer hchars
      obtain ⟨digits,hcut,-,-,-,hvalue,hmax⟩ := fromChars_eq_some_iff.mp hchars
      rw [List.append_nil] at hcut
      refine ⟨hkind,.integer hne hdigits ?_,?_⟩
      · rw [hcut,← hvalue,← ParsedConfigScalar.integer.inj (Option.some.inj h)]
        exact (UInt64.toNat_ofNat_of_lt' (by simp [UInt64.size]; omega)).symm
      · intro text hnot
        cases hnot
    · cases h
  | boolean value =>
    have hlexeme := (hp.lexeme (by simp [hkind,tokenKindFor,ParsedConfigScalar.expectation])).of_boolean hkind
    have hvalue : decide (p.current.lexeme = ascii "true") = value := by
      simpa [ParserState.scalar,tokenKindFor,ParsedConfigScalar.expectation] using h
    have hprints : p.current.lexeme = if value then ascii "true" else ascii "false" := by
      rw [← hvalue]
      rcases hlexeme with h | h <;> rw [h] <;> decide
    refine ⟨hkind,?_,?_⟩
    · rw [hprints]
      exact .boolean
    · intro text hnot
      cases hnot

theorem matches_scalar {scalar : ParsedConfigScalar} (h : scalar.symbol.Matches p.current) :
    p.current.kind = tokenKindFor scalar.expectation ∧ p.scalar (tokenKindFor scalar.expectation) = some scalar := by
  cases scalar with
  | string value =>
    refine ⟨h.kind,?_⟩
    simp [ParserState.scalar,tokenKindFor,ParsedConfigScalar.expectation,h.decoded value rfl]
  | integer value =>
    refine ⟨h.kind,?_⟩
    obtain ⟨-,hprints,-⟩ := h
    generalize hlexeme : p.current.lexeme = x at hprints
    cases hprints with
    | integer hne hdigits hvalue =>
      have hbound : value.toNat ≤ 2 ^ 64 - 1 := Nat.le_pred_of_lt value.toNat_lt
      have hchars : fromChars 10 (2 ^ 64 - 1) x = some (value.toNat,[]) :=
        fromChars_eq_some_iff.mpr ⟨x,(List.append_nil x).symm,hne,by rw [← decimal_digits]; exact hdigits,
          by simp,hvalue.symm,hbound⟩
      simp only [ParserState.scalar,tokenKindFor,ParsedConfigScalar.expectation,reduceCtorEq,if_false,hlexeme,hchars,
        UInt64.ofNat_toNat]
  | boolean value =>
    refine ⟨h.kind,?_⟩
    obtain ⟨-,hprints,-⟩ := h
    generalize hlexeme : p.current.lexeme = x at hprints
    cases hprints with
    | boolean =>
      simp only [ParserState.scalar,tokenKindFor,ParsedConfigScalar.expectation,reduceCtorEq,if_false,if_true,hlexeme]
      cases value <;> decide

end Tokens
end SpareNode.Configuration
