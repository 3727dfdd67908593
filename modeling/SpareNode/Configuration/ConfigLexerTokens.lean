import SpareNode.Configuration.ConfigLexer

/-! # Reading tokens of a known shape

What `next` returns when the input begins with white space and one token. The cursor moves
by exactly the bytes it reads, so lexemes are those bytes.
-/
namespace SpareNode.Configuration
open Utf8

/-- The cursor `c'` stands `x` further in the same input than `c`. -/
def After (x : Bytes) (c c' : Cursor) : Prop :=
  c.rest = x ++ c'.rest ∧ c'.location.byteOffset = c.location.byteOffset + x.length

section Moves
variable {c c' c'' : Cursor} {b : Byte} {x y t : Bytes}

theorem After.refl (c : Cursor) : After [] c c := ⟨rfl,rfl⟩

theorem After.trans (h : After x c c') (h' : After y c' c'') : After (x ++ y) c c'' := by
  refine ⟨by rw [h.1,h'.1,List.append_assoc],?_⟩
  rw [h'.2,h.2,List.length_append]
  omega

theorem After.rest (h : After x c c') (hc : c.rest = x ++ t) : c'.rest = t :=
  (List.append_cancel_left (hc.symm.trans h.1)).symm

theorem consumed_after (h : After x c c') : consumed c c' = x := by
  rw [consumed,h.1,h.2,Nat.add_sub_cancel_left,List.take_left]

theorem advanceAscii_after (hc : c.rest = b :: t) (hb : b ≠ cr) : After [b] c c.advanceAscii := by
  obtain ⟨rest,loc⟩ := c
  dsimp only at hc
  subst hc
  simp only [Cursor.advanceAscii,hb,↓reduceIte]
  split <;> exact ⟨rfl,rfl⟩

theorem advanceScalar_after {scalar : DecodedScalar} (hc : decodeOne c.rest = some scalar)
    (hcr : c.rest.head? ≠ some cr) :
    After (c.rest.take scalar.byteCount) c (c.advanceScalar scalar.byteCount) := by
  have hcount := decodeOne_byteCount hc
  unfold Cursor.advanceScalar
  split
  · rename_i hone
    rw [hone]
    cases hrest : c.rest with
    | nil => simp [hrest,hone] at hcount
    | cons b t => exact advanceAscii_after hrest (fun hb => hcr (by simp [hrest,hb]))
  · refine ⟨(List.take_append_drop _ _).symm,?_⟩
    rw [List.length_take,Nat.min_eq_left hcount.2]
    rfl

theorem advanceWhile_after {p : Byte → Bool} (hp : p cr = false) (hc : c.rest = x ++ t)
    (hx : x.all p = true) (ht : ∀ b ∈ t.head?, p b = false) : After x c (advanceWhile p c) := by
  induction x generalizing c with
  | nil =>
    have hstop : advanceWhile p c = c := by
      rw [advanceWhile]
      split
      · rfl
      · rename_i b rest hrest
        have hhead : b ∈ t.head? := by
          rw [← show c.rest = t from hc,hrest]
          rfl
        rw [if_neg (by simp [ht b hhead])]
    rw [hstop]
    exact After.refl c
  | cons b x ih =>
    have hb : p b = true ∧ x.all p = true := by simpa using hx
    have hne : b ≠ cr := fun hbc => by simp [hbc,hp] at hb
    have hstep := advanceAscii_after hc hne
    have hmore : advanceWhile p c = advanceWhile p c.advanceAscii := by
      rw [advanceWhile]
      split
      · rename_i hnil
        simp [hnil] at hc
      · rename_i b' rest hrest
        obtain ⟨rfl,-⟩ := List.cons.inj (hrest.symm.trans hc)
        rw [if_pos hb.1]
    rw [hmore]
    exact hstep.trans (ih (hstep.rest hc) hb.2)

def isSpace (b : Byte) : Bool := b = char ' ' || b = lf

/-- White space before a byte that begins no trivia is skipped. -/
theorem skipTrivia_spaces (hc : c.rest = x ++ t) (hx : x.all isSpace = true)
    (ht : ∀ b ∈ t.head?, (b = char ' ' || b = 9 || b = cr || b = lf) = false ∧ b ≠ char '#') :
    ∃ c', skipTrivia c = .ok c' ∧ c'.rest = t := by
  induction x generalizing c with
  | nil =>
    refine ⟨c,?_,hc⟩
    rw [skipTrivia]
    split
    · rfl
    · rename_i b rest hrest
      have hhead : b ∈ t.head? := by
        rw [← show c.rest = t from hc,hrest]
        rfl
      obtain ⟨hspace,hhash⟩ := ht b hhead
      rw [if_neg (by simp [hspace]),if_pos hhash]
  | cons b x ih =>
    have hb : isSpace b = true ∧ x.all isSpace = true := by simpa using hx
    have hne : b ≠ cr := by
      rintro rfl
      exact absurd hb.1 (by decide)
    have hstep := advanceAscii_after hc hne
    obtain ⟨c',hskip,hrest'⟩ := ih (hstep.rest hc) hb.2
    refine ⟨c',?_,hrest'⟩
    rw [skipTrivia]
    split
    · rename_i hnil
      simp [hnil] at hc
    · rename_i b' rest hrest
      obtain ⟨rfl,-⟩ := List.cons.inj (hrest.symm.trans hc)
      have hspace : b' = char ' ' ∨ b' = lf := by simpa [isSpace] using hb.1
      rw [if_pos (by rcases hspace with rfl | rfl <;> decide)]
      exact hskip

end Moves

/-- The next token, with what is left to read after it. -/
def Emits (lexer : ConfigLexer) (kind : ConfigTokenKind) (lexeme : Bytes) (decoded : Option Bytes)
    (t : Bytes) : Prop :=
  ∃ location lexer', lexer.next = (.ok ⟨kind,lexeme,decoded,location⟩,lexer') ∧
    lexer'.terminalError = none ∧ lexer'.cursor.rest = t

section Tokens
variable {lexer : ConfigLexer} {c : Cursor} {w x t : Bytes} {b : Byte}

def beginsToken (b : Byte) : Bool :=
  !(b = char ' ' || b = 9 || b = cr || b = lf || b = char '#')

theorem emits_of_lexToken (herror : lexer.terminalError = none) (hrest : lexer.cursor.rest = w ++ t)
    (hw : w.all isSpace = true) (ht : ∀ b ∈ t.head?, beginsToken b = true)
    {kind : ConfigTokenKind} {lexeme : Bytes} {decoded : Option Bytes} {t' : Bytes}
    (htoken : ∀ c : Cursor, c.rest = t → ∃ c', c'.rest = t' ∧
      ConfigLexer.lexToken c = .ok (⟨kind,lexeme,decoded,c.location⟩,c')) :
    Emits lexer kind lexeme decoded t' := by
  obtain ⟨c,hskip,hc⟩ := skipTrivia_spaces hrest hw (by
    intro b hb
    have hbegin := ht b hb
    simp only [beginsToken,Bool.not_eq_eq_eq_not,Bool.not_true,Bool.or_eq_false_iff,
      decide_eq_false_iff_not] at hbegin
    simp [hbegin])
  obtain ⟨c',hc',hlex⟩ := htoken c hc
  refine ⟨c.location,{ lexer with cursor := c' },?_,herror,hc'⟩
  simp only [ConfigLexer.next,herror,hskip,hlex]

/-- An identifier ends before the first byte that cannot continue it. -/
theorem emits_identifier (herror : lexer.terminalError = none)
    (hrest : lexer.cursor.rest = w ++ (b :: x ++ t)) (hw : w.all isSpace = true)
    (hb : isIdentifierStart b = true) (hx : x.all isIdentifierContinuation = true)
    (ht : ∀ y ∈ t.head?, isIdentifierContinuation y = false)
    (hkeyword : b :: x ≠ ascii "true" ∧ b :: x ≠ ascii "false") :
    Emits lexer .identifier (b :: x) none t := by
  have hall : ∀ b, isIdentifierStart b = true → beginsToken b = true :=
    forall_byte (by decide +kernel)
  apply emits_of_lexToken herror hrest hw (by simpa using hall b hb)
  intro c hc
  have hcr : b ≠ cr := by
    rintro rfl
    exact absurd hb (by decide)
  have hfirst := advanceAscii_after hc hcr
  have hmore := advanceWhile_after (by decide) (hfirst.rest hc) hx ht
  have hident := hfirst.trans hmore
  refine ⟨_,hident.rest hc,?_⟩
  rw [List.cons_append] at hc
  simp only [ConfigLexer.lexToken,hc,hb,↓reduceIte,lexIdentifier,consumed_after hident]
  simp [hkeyword]

def punctuation (b : Byte) : Option ConfigTokenKind :=
  if b = 0x7B then some .leftBrace else if b = 0x7D then some .rightBrace
  else if b = char ';' then some .semicolon else none

theorem punctuation_cases {kind : ConfigTokenKind} (hb : punctuation b = some kind) :
    b = 0x7B ∧ kind = .leftBrace ∨ b = 0x7D ∧ kind = .rightBrace ∨ b = char ';' ∧ kind = .semicolon := by
  unfold punctuation at hb
  split at hb
  · rename_i h
    exact Or.inl ⟨h,(Option.some.inj hb).symm⟩
  · split at hb
    · rename_i h
      exact Or.inr (Or.inl ⟨h,(Option.some.inj hb).symm⟩)
    · split at hb
      · rename_i h
        exact Or.inr (Or.inr ⟨h,(Option.some.inj hb).symm⟩)
      · cases hb

theorem emits_punctuation {kind : ConfigTokenKind} (herror : lexer.terminalError = none)
    (hrest : lexer.cursor.rest = w ++ (b :: t)) (hw : w.all isSpace = true)
    (hb : punctuation b = some kind) : Emits lexer kind [b] none t := by
  have hbyte := punctuation_cases hb
  apply emits_of_lexToken herror hrest hw
  · rcases hbyte with ⟨rfl,-⟩ | ⟨rfl,-⟩ | ⟨rfl,-⟩ <;> simp <;> decide
  · intro c hc
    have hcr : b ≠ cr := by rcases hbyte with ⟨rfl,-⟩ | ⟨rfl,-⟩ | ⟨rfl,-⟩ <;> decide
    refine ⟨c.advanceAscii,(advanceAscii_after hc hcr).rest hc,?_⟩
    unfold ConfigLexer.lexToken
    rw [hc]
    rcases hbyte with ⟨rfl,rfl⟩ | ⟨rfl,rfl⟩ | ⟨rfl,rfl⟩ <;> simp [lexPunctuation,hc] <;> rfl

theorem emits_end (herror : lexer.terminalError = none) (hrest : lexer.cursor.rest = w)
    (hw : w.all isSpace = true) : Emits lexer .endOfInput [] none [] := by
  apply emits_of_lexToken herror (hrest.trans (List.append_nil w).symm) hw (by simp)
  intro c hc
  exact ⟨c,hc,by simp [ConfigLexer.lexToken,hc]⟩

end Tokens
end SpareNode.Configuration
