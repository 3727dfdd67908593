import SpareNode.Configuration.LexicalGrammar

/-! # Tiling

The calls of `next` over one input. Trivia and lexemes follow one another without gap or overlap, every
location is exact, and after the end of the input or an error every call returns the same.
-/
namespace SpareNode.Configuration
open Utf8

/-- The lexer after `n` calls of `next`. -/
def ConfigLexer.after : ConfigLexer → ℕ → ConfigLexer
  | lexer,0 => lexer
  | lexer,n + 1 => lexer.next.2.after n

/-- What call `n` of `next` returns. -/
def ConfigLexer.call (lexer : ConfigLexer) (n : ℕ) : Except ConfigLexerError ConfigToken := (lexer.after n).next.1

/-- `text` stands behind `before`; it is cut into trivia, the lexemes of the tokens and the outcome. -/
inductive Tiled (mark : Bytes) : Bytes → Bytes → List ConfigToken → Except ConfigLexerError ConfigToken → Prop
  | token {before w rest : Bytes} {token : ConfigToken} {tokens : List ConfigToken}
      {outcome : Except ConfigLexerError ConfigToken} (hw : Trivia false w)
      (htoken : Lexeme token.kind token.lexeme token.decodedString) (hends : Ends token.kind rest)
      (hlocation : Located mark (before ++ w) (token.lexeme ++ rest) token.location)
      (h : Tiled mark (before ++ w ++ token.lexeme) rest tokens outcome) :
      Tiled mark before (w ++ token.lexeme ++ rest) (token :: tokens) outcome
  | endOfInput {before w : Bytes} {location : SourceLocation} (hw : Trivia true w)
      (hlocation : Located mark (before ++ w) [] location) :
      Tiled mark before w [] (.ok ⟨.endOfInput,[],none,location⟩)
  | error {before w begun rest : Bytes} {e : ConfigLexerError} (hw : Trivia false w)
      (herror : Failure begun e.code rest) (hlocation : Located mark (before ++ w ++ begun) rest e.location) :
      Tiled mark before (w ++ begun ++ rest) [] (.error e)

section Calls
variable {lexer : ConfigLexer} {n : ℕ}

theorem call_succ (lexer : ConfigLexer) (n : ℕ) : lexer.call (n + 1) = lexer.next.2.call n := rfl

/-- A call that leaves the lexer as it is repeats for ever. -/
theorem call_repeats (h : lexer.next.2 = lexer) (n : ℕ) : lexer.call n = lexer.next.1 := by
  induction n with
  | zero => rfl
  | succ n ih => rw [call_succ,h,ih]

/-- What one call does: it fails, it reports the end of the input, or it reads one token. -/
inductive Step (lexer : ConfigLexer) : Prop
  | error {w begun : Bytes} {e : ConfigLexerError} (hw : Trivia false w) (hfails : FailsAfter w begun lexer.cursor e)
      (hnext : lexer.next = (.error e,{ lexer with terminalError := some e }))
  | endOfInput {w : Bytes} {c : Cursor} (hw : Trivia true w) (hmoves : Moves w lexer.cursor c) (hend : c.rest = [])
      (hnext : lexer.next = (.ok ⟨.endOfInput,[],none,c.location⟩,{ lexer with cursor := c }))
  | token {w : Bytes} {c c' : Cursor} {token : ConfigToken} (hw : Trivia false w) (hmoves : Moves w lexer.cursor c)
      (hreads : Reads c token c') (hnext : lexer.next = (.ok token,{ lexer with cursor := c' }))

theorem next_step (herror : lexer.terminalError = none) : Step lexer := by
  cases hskip : skipTrivia lexer.cursor with
  | error e =>
    obtain ⟨w,text,hw,hfails⟩ := skipTrivia_fails hskip
    refine .error hw hfails ?_
    simp only [ConfigLexer.next,herror,hskip,ConfigLexer.fail]
  | ok c =>
    obtain ⟨w,hw,hmoves,hbegins⟩ := skipTrivia_moves hskip
    cases hrest : c.rest with
    | nil =>
      rw [hrest] at hw
      refine .endOfInput hw hmoves hrest ?_
      simp only [ConfigLexer.next,herror,hskip,ConfigLexer.lexToken,hrest]
    | cons b s =>
      rw [hrest] at hw
      cases hlex : ConfigLexer.lexToken c with
      | error e =>
        obtain ⟨begun,hfails⟩ := lexToken_fails hrest (hbegins b (by rw [hrest]; rfl)) hlex
        have hfails := hfails.trans hmoves
        rw [List.append_nil] at hfails
        refine .error hw hfails ?_
        simp only [ConfigLexer.next,herror,hskip,hlex,ConfigLexer.fail]
      | ok read =>
        obtain ⟨token,c'⟩ := read
        refine .token hw hmoves (lexToken_reads hrest hlex) ?_
        simp only [ConfigLexer.next,herror,hskip,hlex]

theorem next_of_error {e : ConfigLexerError} (h : lexer.terminalError = some e) : lexer.next = (.error e,lexer) := by
  simp only [ConfigLexer.next,h]

theorem next_of_end (herror : lexer.terminalError = none) (hend : lexer.cursor.rest = []) :
    lexer.next = (.ok ⟨.endOfInput,[],none,lexer.cursor.location⟩,lexer) := by
  have hskip : skipTrivia lexer.cursor = .ok lexer.cursor := by
    rw [skipTrivia]
    split
    · rfl
    · rename_i b rest hrest
      rw [hend] at hrest
      cases hrest
  obtain ⟨cursor,terminalError⟩ := lexer
  obtain rfl : terminalError = none := herror
  dsimp only at hend hskip ⊢
  simp only [ConfigLexer.next,hskip,ConfigLexer.lexToken,hend]

theorem Lexeme.ne_nil {kind : ConfigTokenKind} {s : Bytes} {decoded : Option Bytes} (h : Lexeme kind s decoded) :
    s ≠ [] := by
  cases h with
  | boolean h =>
    rcases h with rfl | rfl <;> decide
  | _ => simp

theorem calls_tile {mark before : Bytes} (herror : lexer.terminalError = none)
    (hlocation : Located mark before lexer.cursor.rest lexer.cursor.location) :
    ∃ tokens outcome, Tiled mark before lexer.cursor.rest tokens outcome ∧
      (∀ i (h : i < tokens.length), lexer.call i = .ok tokens[i]) ∧
      ∀ i, tokens.length ≤ i → lexer.call i = outcome := by
  induction hlength : lexer.cursor.rest.length using Nat.strong_induction_on generalizing lexer before with
  | _ n ih =>
    cases next_step herror with
    | @error w begun e hw hfails hnext =>
      obtain ⟨c',hmoves,hbad,hloc⟩ := hfails
      refine ⟨[],.error e,?_,by simp,fun i _ => ?_⟩
      · rw [hmoves.1.1]
        refine .error hw hbad ?_
        rw [hloc,List.append_assoc]
        exact hmoves.2 mark before hlocation
      · cases i with
        | zero => rw [ConfigLexer.call,ConfigLexer.after,hnext]
        | succ i =>
          rw [call_succ,hnext]
          have hrepeat := @next_of_error { lexer with terminalError := some e } e rfl
          rw [call_repeats (by rw [hrepeat]),hrepeat]
    | @endOfInput w c hw hmoves hend hnext =>
      refine ⟨[],.ok ⟨.endOfInput,[],none,c.location⟩,?_,by simp,fun i _ => ?_⟩
      · rw [hmoves.1.1,hend,List.append_nil]
        exact .endOfInput hw (hend ▸ hmoves.2 mark before hlocation)
      · cases i with
        | zero => rw [ConfigLexer.call,ConfigLexer.after,hnext]
        | succ i =>
          rw [call_succ,hnext]
          have hrepeat := @next_of_end { lexer with cursor := c } herror hend
          rw [call_repeats (by rw [hrepeat]),hrepeat]
    | @token w c c' token hw hmoves hreads hnext =>
      have hrest : c.rest = token.lexeme ++ c'.rest := hreads.moves.1.1
      have hshort : c'.rest.length < n := by
        have := List.length_pos_of_ne_nil hreads.lexeme.ne_nil
        rw [← hlength,hmoves.1.1,hrest,List.length_append,List.length_append]
        omega
      have hstart := hmoves.2 mark before hlocation
      obtain ⟨tokens,outcome,htiled,hcalls,hlast⟩ := @ih c'.rest.length hshort
        { lexer with cursor := c' } (before ++ w ++ token.lexeme) herror
        (hreads.moves.2 mark _ hstart) rfl
      refine ⟨token :: tokens,outcome,?_,?_,?_⟩
      · rw [hmoves.1.1,hrest,← List.append_assoc]
        refine .token hw hreads.lexeme hreads.ends ?_ htiled
        rw [hreads.location,← hrest]
        exact hstart
      · intro i hi
        cases i with
        | zero =>
          rw [ConfigLexer.call,ConfigLexer.after,hnext]
          rfl
        | succ i =>
          rw [call_succ,hnext]
          exact hcalls i (Nat.lt_of_succ_lt_succ hi)
      · intro i hi
        cases i with
        | zero => cases hi
        | succ i =>
          rw [call_succ,hnext]
          exact hlast i (Nat.le_of_succ_le_succ hi)

end Calls

def BeginsWith (input mark : Bytes) : Prop :=
  mark = utf8ByteOrderMark ∧ hasByteOrderMark input = true ∨ mark = [] ∧ hasByteOrderMark input = false

theorem Located.start (mark rest : Bytes) : Located mark [] rest ⟨mark.length,1,1⟩ :=
  ⟨rfl,rfl,⟨[],rfl,rfl⟩,nofun⟩

theorem create_cases (input : Bytes) :
    maxInputSizeBytes < input.length ∧
      ConfigLexer.create input = .error ⟨.inputTooLarge,{},ascii (toString input.length ++ " bytes")⟩ ∨
    input.length ≤ maxInputSizeBytes ∧ ∃ mark text, input = mark ++ text ∧ BeginsWith input mark ∧
      ConfigLexer.create input = .ok { cursor := ⟨text,⟨mark.length,1,1⟩⟩ } := by
  unfold ConfigLexer.create
  by_cases hsize : maxInputSizeBytes < input.length
  · rw [if_pos hsize]
    exact Or.inl ⟨hsize,rfl⟩
  · rw [if_neg hsize]
    refine Or.inr ⟨not_lt.mp hsize,?_⟩
    cases hmark : hasByteOrderMark input with
    | true =>
      obtain ⟨text,htext⟩ := hasByteOrderMark_split hmark
      refine ⟨utf8ByteOrderMark,text,htext,Or.inl ⟨rfl,hmark⟩,?_⟩
      rw [htext]
      rfl
    | false => exact ⟨[],input,rfl,Or.inr ⟨rfl,hmark⟩,rfl⟩

/-- The lexer tiles every input, with exact locations, and ends in an outcome that repeats. -/
theorem lexer_tiles_exactly (input : Bytes) :
    match ConfigLexer.create input with
    | .error e => maxInputSizeBytes < input.length ∧ e.code = .inputTooLarge ∧ Located [] [] input e.location
    | .ok lexer => ∃ mark text tokens outcome, input = mark ++ text ∧ BeginsWith input mark ∧
        Tiled mark [] text tokens outcome ∧ (∀ i (h : i < tokens.length), lexer.call i = .ok tokens[i]) ∧
        ∀ i, tokens.length ≤ i → lexer.call i = outcome := by
  rcases create_cases input with ⟨hsize,hcreate⟩ | ⟨-,mark,text,hinput,hmark,hcreate⟩
  · rw [hcreate]
    exact ⟨hsize,rfl,Located.start [] input⟩
  · rw [hcreate]
    obtain ⟨tokens,outcome,htiled,hcalls,hlast⟩ := @calls_tile
      { cursor := ⟨text,⟨mark.length,1,1⟩⟩ } mark [] rfl (Located.start mark text)
    exact ⟨mark,text,tokens,outcome,hinput,hmark,htiled,hcalls,hlast⟩

end SpareNode.Configuration
