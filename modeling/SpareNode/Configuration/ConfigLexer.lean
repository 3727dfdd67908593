import SpareNode.Foundation.Utf8

/-! # The configuration lexer

`ConfigLexer` walks its input once. Nothing looks behind the current offset, so the cursor
holds the bytes still to read together with the source location of the first of them.
-/
namespace SpareNode.Configuration
open Utf8

structure SourceLocation where
  byteOffset : ℕ := 0
  line : ℕ := 1
  column : ℕ := 1
deriving DecidableEq, Repr

inductive ConfigTokenKind where
  | identifier | stringLiteral | integerLiteral | booleanLiteral
  | leftBrace | rightBrace | semicolon | endOfInput
deriving DecidableEq, Repr

structure ConfigToken where
  kind : ConfigTokenKind
  lexeme : Bytes
  decodedString : Option Bytes
  location : SourceLocation
deriving DecidableEq

inductive ConfigLexerErrorCode where
  | inputTooLarge | invalidUtf8 | unexpectedByteOrderMark | embeddedNull | unexpectedCharacter
  | invalidEscapeSequence | unterminatedString | lineBreakInString
deriving DecidableEq, Repr

structure ConfigLexerError where
  code : ConfigLexerErrorCode
  location : SourceLocation
  context : Bytes
deriving DecidableEq

def isIdentifierStart (b : Byte) : Bool :=
  (char 'A' ≤ b && b ≤ char 'Z') || (char 'a' ≤ b && b ≤ char 'z') || b = char '_'

def isDecimalDigit (b : Byte) : Bool := char '0' ≤ b && b ≤ char '9'

def isIdentifierContinuation (b : Byte) : Bool :=
  isIdentifierStart b || isDecimalDigit b || b = char '-'

def utf8ByteOrderMark : Bytes := [0xEF,0xBB,0xBF]

def maximumErrorContextBytes : ℕ := 5

def maxInputSizeBytes : ℕ := 1024 * 1024

/-- Whether the bytes still to read begin with a byte-order mark. -/
def hasByteOrderMark (rest : Bytes) : Bool := utf8ByteOrderMark.isPrefixOf rest

def makeContext (rest : Bytes) (length : ℕ) : Bytes := rest.take (min length maximumErrorContextBytes)

structure Cursor where
  rest : Bytes
  location : SourceLocation
deriving DecidableEq

namespace Cursor

def advanceAscii (c : Cursor) : Cursor :=
  match c.rest with
  | [] => c
  | b :: rest =>
    if b = cr then
      match rest with
      | x :: rest' =>
        if x = lf then ⟨rest',c.location.byteOffset + 2,c.location.line + 1,1⟩
        else ⟨rest,c.location.byteOffset + 1,c.location.line + 1,1⟩
      | [] => ⟨rest,c.location.byteOffset + 1,c.location.line + 1,1⟩
    else if b = lf then ⟨rest,c.location.byteOffset + 1,c.location.line + 1,1⟩
    else ⟨rest,c.location.byteOffset + 1,c.location.line,c.location.column + 1⟩

def utf8SequenceLength (c : Cursor) : ℕ :=
  match decodeOne c.rest with
  | none => 0
  | some scalar => scalar.byteCount

def advanceUtf8 (c : Cursor) (sequenceLength : ℕ) : Cursor :=
  ⟨c.rest.drop sequenceLength,
    { c.location with
      byteOffset := c.location.byteOffset + sequenceLength
      column := c.location.column + 1 }⟩

def advanceScalar (c : Cursor) (sequenceLength : ℕ) : Cursor :=
  if sequenceLength = 1 then c.advanceAscii else c.advanceUtf8 sequenceLength

/-- An error at the current location whose context is the next `length` bytes. -/
def error (c : Cursor) (code : ConfigLexerErrorCode) (length : ℕ := 1) : ConfigLexerError :=
  ⟨code,c.location,makeContext c.rest length⟩

theorem advanceAscii_length {c : Cursor} (h : c.rest ≠ []) :
    c.advanceAscii.rest.length < c.rest.length := by
  obtain ⟨rest,loc⟩ := c
  cases rest with
  | nil => exact absurd rfl h
  | cons b rest =>
    unfold advanceAscii
    dsimp only
    split
    · split
      · split
        · simp only [List.length_cons]
          omega
        · simp
      · simp
    · split <;> simp

theorem advanceScalar_length {c : Cursor} (h : c.rest ≠ []) {n : ℕ} (hn : n ≠ 0) :
    (c.advanceScalar n).rest.length < c.rest.length := by
  unfold advanceScalar
  split
  · exact advanceAscii_length h
  · have := List.length_pos_of_ne_nil h
    simp only [advanceUtf8,List.length_drop]
    omega

end Cursor

/-- The inner loop of `skip_trivia`, after the `#`. -/
def skipComment (c : Cursor) : Except ConfigLexerError Cursor :=
  match _h : c.rest with
  | [] => .ok c
  | b :: _ =>
    if b = cr || b = lf then .ok c
    else if b = 0 then .error (c.error .embeddedNull)
    else if hasByteOrderMark c.rest then .error (c.error .unexpectedByteOrderMark 3)
    else if _hn : c.utf8SequenceLength = 0 then .error (c.error .invalidUtf8)
    else skipComment (c.advanceScalar c.utf8SequenceLength)
termination_by c.rest.length
decreasing_by exact Cursor.advanceScalar_length (by simp [_h]) _hn

theorem skipComment_length {c c' : Cursor} (h : skipComment c = .ok c') :
    c'.rest.length ≤ c.rest.length := by
  fun_induction skipComment c with
  | case6 c b rest hrest h1 h2 h3 h4 ih =>
    have hlt := Cursor.advanceScalar_length (c := c) (by simp [hrest]) h4
    exact (ih h).trans hlt.le
  | case1 | case2 => simp_all
  | _ => simp at h

def skipTrivia (c : Cursor) : Except ConfigLexerError Cursor :=
  match _h : c.rest with
  | [] => .ok c
  | b :: _ =>
    if b = char ' ' || b = 9 || b = cr || b = lf then skipTrivia c.advanceAscii
    else if b ≠ char '#' then .ok c
    else
      match _hc : skipComment c.advanceAscii with
      | .error e => .error e
      | .ok c' => skipTrivia c'
termination_by c.rest.length
decreasing_by
  · exact Cursor.advanceAscii_length (by simp [_h])
  · exact (skipComment_length _hc).trans_lt (Cursor.advanceAscii_length (by simp [_h]))

/-- The loops of `lex_identifier` and `lex_integer`. -/
def advanceWhile (p : Byte → Bool) (c : Cursor) : Cursor :=
  match _h : c.rest with
  | [] => c
  | b :: _ => if p b then advanceWhile p c.advanceAscii else c
termination_by c.rest.length
decreasing_by exact Cursor.advanceAscii_length (by simp [_h])

def consumed (start stop : Cursor) : Bytes :=
  start.rest.take (stop.location.byteOffset - start.location.byteOffset)

def lexIdentifier (c : Cursor) : ConfigToken × Cursor :=
  let stop := advanceWhile isIdentifierContinuation c.advanceAscii
  let lexeme := consumed c stop
  let kind := if lexeme = ascii "true" || lexeme = ascii "false" then .booleanLiteral else .identifier
  (⟨kind,lexeme,none,c.location⟩,stop)

def lexInteger (c : Cursor) : ConfigToken × Cursor :=
  let stop := advanceWhile isDecimalDigit c.advanceAscii
  (⟨.integerLiteral,consumed c stop,none,c.location⟩,stop)

def escapedCharacter (b : Byte) : Option Byte :=
  if b = char '"' then some (char '"')
  else if b = char '\\' then some (char '\\')
  else if b = char 'n' then some lf
  else if b = char 'r' then some cr
  else if b = char 't' then some 9
  else none

def consumeEscape (decoded : Bytes) (c : Cursor) : Except ConfigLexerError (Bytes × Cursor) :=
  let next := c.advanceAscii
  match next.rest with
  | [] => .error ⟨.invalidEscapeSequence,c.location,[char '\\']⟩
  | b :: _ =>
    if b = 0 then .error (next.error .embeddedNull)
    else if b = cr || b = lf then .error (next.error .lineBreakInString)
    else if hasByteOrderMark next.rest then .error (next.error .unexpectedByteOrderMark 3)
    else if next.utf8SequenceLength = 0 then .error (next.error .invalidUtf8)
    else
      match escapedCharacter b with
      | none => .error (c.error .invalidEscapeSequence (1 + next.utf8SequenceLength))
      | some x => .ok (decoded ++ [x],next.advanceAscii)

def consumeStringCharacter (decoded : Bytes) (c : Cursor) :
    Except ConfigLexerError (Bytes × Cursor) :=
  match c.rest with
  | [] => .ok (decoded,c)
  | b :: _ =>
    if b = cr || b = lf then .error (c.error .lineBreakInString)
    else if b = 0 then .error (c.error .embeddedNull)
    else if hasByteOrderMark c.rest then .error (c.error .unexpectedByteOrderMark 3)
    else if b = char '\\' then consumeEscape decoded c
    else if c.utf8SequenceLength = 0 then .error (c.error .invalidUtf8)
    else .ok (decoded ++ c.rest.take c.utf8SequenceLength,c.advanceScalar c.utf8SequenceLength)

theorem consumeEscape_length {decoded decoded' : Bytes} {c c' : Cursor} (hc : c.rest ≠ [])
    (h : consumeEscape decoded c = .ok (decoded',c')) : c'.rest.length < c.rest.length := by
  have hfirst := Cursor.advanceAscii_length hc
  unfold consumeEscape at h
  dsimp only at h
  split at h
  · cases h
  · rename_i b rest hrest
    have hsecond := Cursor.advanceAscii_length (c := c.advanceAscii) (by simp [hrest])
    repeat' split at h
    all_goals cases h
    exact hsecond.trans hfirst

theorem consumeStringCharacter_length {decoded decoded' : Bytes} {c c' : Cursor} (hc : c.rest ≠ [])
    (h : consumeStringCharacter decoded c = .ok (decoded',c')) : c'.rest.length < c.rest.length := by
  unfold consumeStringCharacter at h
  split at h
  · contradiction
  · split at h
    · cases h
    · split at h
      · cases h
      · split at h
        · cases h
        · split at h
          · exact consumeEscape_length hc h
          · split at h
            · cases h
            · rename_i hn
              cases h
              exact Cursor.advanceScalar_length hc hn

/-- The loop of `lex_string`: it stops at the closing quote or at the end of the input. -/
def consumeString (decoded : Bytes) (c : Cursor) : Except ConfigLexerError (Bytes × Cursor) :=
  match _h : c.rest with
  | [] => .ok (decoded,c)
  | b :: _ =>
    if b = char '"' then .ok (decoded,c)
    else
      match _hc : consumeStringCharacter decoded c with
      | .error e => .error e
      | .ok (decoded',c') => consumeString decoded' c'
termination_by c.rest.length
decreasing_by exact consumeStringCharacter_length (by simp [_h]) _hc

def lexString (c : Cursor) : Except ConfigLexerError (ConfigToken × Cursor) :=
  match consumeString [] c.advanceAscii with
  | .error e => .error e
  | .ok (decoded,stop) =>
    match stop.rest with
    | [] => .error (c.error .unterminatedString)
    | _ :: _ =>
      .ok (⟨.stringLiteral,consumed c stop.advanceAscii,some decoded,c.location⟩,stop.advanceAscii)

def lexPunctuation (kind : ConfigTokenKind) (c : Cursor) : ConfigToken × Cursor :=
  (⟨kind,c.rest.take 1,none,c.location⟩,c.advanceAscii)

structure ConfigLexer where
  cursor : Cursor
  terminalError : Option ConfigLexerError := none
deriving DecidableEq

namespace ConfigLexer

def create (input : Bytes) : Except ConfigLexerError ConfigLexer :=
  if maxInputSizeBytes < input.length then
    .error ⟨.inputTooLarge,{},ascii (toString input.length ++ " bytes")⟩
  else if hasByteOrderMark input then .ok { cursor := ⟨input.drop 3,{ byteOffset := 3 }⟩ }
  else .ok { cursor := ⟨input,{}⟩ }

def fail (lexer : ConfigLexer) (e : ConfigLexerError) : Except ConfigLexerError ConfigToken × ConfigLexer :=
  (.error e,{ lexer with terminalError := some e })

/-- The token at a cursor that stands on no trivia. -/
def lexToken (c : Cursor) : Except ConfigLexerError (ConfigToken × Cursor) :=
  match c.rest with
  | [] => .ok (⟨.endOfInput,[],none,c.location⟩,c)
  | b :: _ =>
    if isIdentifierStart b then .ok (lexIdentifier c)
    else if isDecimalDigit b then .ok (lexInteger c)
    else if b = char '"' then lexString c
    else if b = 0x7B then .ok (lexPunctuation .leftBrace c)
    else if b = 0x7D then .ok (lexPunctuation .rightBrace c)
    else if b = char ';' then .ok (lexPunctuation .semicolon c)
    else if b = 0 then .error (c.error .embeddedNull)
    else if hasByteOrderMark c.rest then .error (c.error .unexpectedByteOrderMark 3)
    else if c.utf8SequenceLength = 0 then .error (c.error .invalidUtf8)
    else .error (c.error .unexpectedCharacter c.utf8SequenceLength)

def next (lexer : ConfigLexer) : Except ConfigLexerError ConfigToken × ConfigLexer :=
  match lexer.terminalError with
  | some e => (.error e,lexer)
  | none =>
    match skipTrivia lexer.cursor with
    | .error e => lexer.fail e
    | .ok c =>
      match lexToken c with
      | .error e => lexer.fail e
      | .ok (token,c') => (.ok token,{ lexer with cursor := c' })

end ConfigLexer

section Progress
variable {c c' : Cursor}

theorem skipTrivia_length (h : skipTrivia c = .ok c') : c'.rest.length ≤ c.rest.length := by
  fun_induction skipTrivia c with
  | case2 c b rest hrest hspace ih =>
    exact (ih h).trans (Cursor.advanceAscii_length (by simp [hrest])).le
  | case5 c b rest hrest _ _ c₁ hskip ih =>
    have hlt := Cursor.advanceAscii_length (c := c) (by simp [hrest])
    exact (ih h).trans ((skipComment_length hskip).trans hlt.le)
  | case1 | case3 =>
    cases h
    exact le_rfl
  | case4 => cases h

theorem advanceWhile_length (p : Byte → Bool) (c : Cursor) :
    (advanceWhile p c).rest.length ≤ c.rest.length := by
  fun_induction advanceWhile p c with
  | case2 c b rest hrest hb ih => exact ih.trans (Cursor.advanceAscii_length (by simp [hrest])).le
  | case1 | case3 => exact le_rfl

theorem consumeString_length {decoded decoded' : Bytes}
    (h : consumeString decoded c = .ok (decoded',c')) : c'.rest.length ≤ c.rest.length := by
  fun_induction consumeString decoded c with
  | case4 decoded c b rest hrest hb d₁ c₁ hstep ih =>
    exact (ih h).trans (consumeStringCharacter_length (by simp [hrest]) hstep).le
  | case1 | case2 =>
    cases h
    exact le_rfl
  | case3 => cases h

/-- Every token but the last one takes at least one byte. -/
theorem lexToken_length {token : ConfigToken} (h : ConfigLexer.lexToken c = .ok (token,c')) :
    c'.rest.length ≤ c.rest.length ∧
    (token.kind ≠ .endOfInput → c'.rest.length < c.rest.length) := by
  cases hrest : c.rest with
  | nil =>
    simp only [ConfigLexer.lexToken,hrest,Except.ok.injEq,Prod.mk.injEq] at h
    obtain ⟨rfl,rfl⟩ := h
    exact ⟨by simp [hrest],fun hk => absurd rfl hk⟩
  | cons b rest =>
    have hfirst := Cursor.advanceAscii_length (c := c) (by simp [hrest])
    suffices hlt : c'.rest.length < c.rest.length from hrest ▸ ⟨hlt.le,fun _ => hlt⟩
    simp only [ConfigLexer.lexToken,hrest] at h
    split at h
    · cases h
      exact (advanceWhile_length _ _).trans_lt hfirst
    · split at h
      · cases h
        exact (advanceWhile_length _ _).trans_lt hfirst
      · split at h
        · unfold lexString at h
          split at h
          · cases h
          · rename_i decoded stop hread
            split at h
            · cases h
            · rename_i x xs hstop
              have hlast := Cursor.advanceAscii_length (c := stop) (by simp [hstop])
              cases h
              exact hlast.trans_le ((consumeString_length hread).trans hfirst.le)
        · repeat' split at h
          all_goals cases h
          all_goals exact hfirst

theorem next_length {lexer lexer' : ConfigLexer} {token : ConfigToken}
    (h : lexer.next = (.ok token,lexer')) :
    lexer'.cursor.rest.length ≤ lexer.cursor.rest.length ∧
    (token.kind ≠ .endOfInput → lexer'.cursor.rest.length < lexer.cursor.rest.length) := by
  unfold ConfigLexer.next at h
  split at h
  · cases h
  · split at h
    · cases h
    · rename_i c hskip
      split at h
      · cases h
      · rename_i token' c' hlex
        cases h
        have hlen := lexToken_length hlex
        have htrivia := skipTrivia_length hskip
        exact ⟨hlen.1.trans htrivia,fun hk => (hlen.2 hk).trans_le htrivia⟩

end Progress
end SpareNode.Configuration
