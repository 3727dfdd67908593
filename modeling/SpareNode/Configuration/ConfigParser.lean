import SpareNode.Configuration.ConfigLexer

/-! # The configuration parser

`ParserState` holds one token ahead of the lexer. A directive carries a value of the type that its name
asks for; the parser proves this when it builds one.
-/
namespace SpareNode.Configuration

inductive ServerDirectiveKind where
  | bind | port | multithreading | workerThreads | logLevel | mimeTypesFile | credentialsFile
  | headerTimeoutMs | bodyTimeoutMs | requestTimeoutMs | responseTimeoutMs | transportMode | trustedProxy
deriving DecidableEq, Repr

inductive LocationDirectiveKind where
  | path | readPermission | writePermission | deletePermission
deriving DecidableEq, Repr

inductive ConfigParserErrorCode where
  | lexicalError | unexpectedToken | integerOutOfRange
deriving DecidableEq, Repr

inductive ConfigParserExpectation where
  | serverKeyword | leftBrace | rightBrace | semicolon | serverItem | locationItem | stringLiteral
  | integerLiteral | booleanLiteral | endOfInput
deriving DecidableEq, Repr

structure ConfigParserError where
  code : ConfigParserErrorCode
  location : SourceLocation
  expected : Option ConfigParserExpectation
  actualTokenKind : Option ConfigTokenKind
  actualIdentifier : Option Bytes
  lexerError : Option ConfigLexerError
deriving DecidableEq

def ServerDirectiveKind.expectation : ServerDirectiveKind → ConfigParserExpectation
  | .bind | .logLevel | .mimeTypesFile | .credentialsFile | .transportMode | .trustedProxy => .stringLiteral
  | .port | .workerThreads | .headerTimeoutMs | .bodyTimeoutMs | .requestTimeoutMs | .responseTimeoutMs =>
    .integerLiteral
  | .multithreading => .booleanLiteral

def LocationDirectiveKind.expectation : LocationDirectiveKind → ConfigParserExpectation
  | .path => .stringLiteral
  | .readPermission | .writePermission | .deletePermission => .booleanLiteral

def tokenKindFor : ConfigParserExpectation → ConfigTokenKind
  | .stringLiteral => .stringLiteral
  | .integerLiteral => .integerLiteral
  | .booleanLiteral => .booleanLiteral
  | _ => .endOfInput

inductive ParsedConfigScalar where
  | string (value : Bytes)
  | integer (value : UInt64)
  | boolean (value : Bool)
deriving DecidableEq

/-- The grammar rule whose values the scalar belongs to. -/
def ParsedConfigScalar.expectation : ParsedConfigScalar → ConfigParserExpectation
  | .string _ => .stringLiteral
  | .integer _ => .integerLiteral
  | .boolean _ => .booleanLiteral

structure ParsedConfigValue where
  scalar : ParsedConfigScalar
  location : SourceLocation
deriving DecidableEq

structure ParsedServerDirective where
  kind : ServerDirectiveKind
  value : ParsedConfigValue
  location : SourceLocation
  typed : value.scalar.expectation = kind.expectation
deriving DecidableEq

structure ParsedLocationDirective where
  kind : LocationDirectiveKind
  value : ParsedConfigValue
  location : SourceLocation
  typed : value.scalar.expectation = kind.expectation
deriving DecidableEq

structure ParsedLocationBlock where
  apiPath : Bytes
  location : SourceLocation
  apiPathLocation : SourceLocation
  closingBraceLocation : SourceLocation
  directives : List ParsedLocationDirective
deriving DecidableEq

structure ParsedServerBlock where
  location : SourceLocation
  closingBraceLocation : SourceLocation
  directives : List ParsedServerDirective
  locations : List ParsedLocationBlock
deriving DecidableEq

structure ParsedConfiguration where
  server : ParsedServerBlock
  endOfInputLocation : SourceLocation
deriving DecidableEq

/-- `server_directive_kind`: the names in the order of the table. -/
def serverDirectiveNames : List (Bytes × ServerDirectiveKind) :=
  [(ascii "bind",.bind),(ascii "port",.port),(ascii "multithreading",.multithreading),
    (ascii "worker_threads",.workerThreads),(ascii "header_timeout_ms",.headerTimeoutMs),
    (ascii "body_timeout_ms",.bodyTimeoutMs),(ascii "request_timeout_ms",.requestTimeoutMs),
    (ascii "response_timeout_ms",.responseTimeoutMs),(ascii "log_level",.logLevel),
    (ascii "mime_types_file",.mimeTypesFile),(ascii "credentials_file",.credentialsFile),
    (ascii "transport_mode",.transportMode),(ascii "trusted_proxy",.trustedProxy)]

def serverDirectiveKind (name : Bytes) : Option ServerDirectiveKind :=
  (serverDirectiveNames.find? (fun mapping => name = mapping.1)).map (·.2)

def locationDirectiveKind (name : Bytes) : Option LocationDirectiveKind :=
  if name = ascii "path" then some .path
  else if name = ascii "read" then some .readPermission
  else if name = ascii "write" then some .writePermission
  else if name = ascii "delete" then some .deletePermission
  else none

structure ParserState where
  lexer : ConfigLexer
  current : ConfigToken

namespace ParserState

def advance (lexer : ConfigLexer) : Except ConfigParserError ParserState :=
  match lexer.next with
  | (.error e,_) => .error ⟨.lexicalError,e.location,none,none,none,some e⟩
  | (.ok token,lexer') => .ok ⟨lexer',token⟩

def isIdentifier (p : ParserState) (name : Bytes) : Bool :=
  p.current.kind = .identifier && p.current.lexeme = name

def makeUnexpectedError (p : ParserState) (expected : ConfigParserExpectation) : ConfigParserError :=
  ⟨.unexpectedToken,p.current.location,some expected,some p.current.kind,
    if p.current.kind = .identifier then some p.current.lexeme else none,none⟩

def consume (p : ParserState) (kind : ConfigTokenKind) (expected : ConfigParserExpectation) :
    Except ConfigParserError ParserState :=
  if p.current.kind ≠ kind then .error (p.makeUnexpectedError expected) else advance p.lexer

/-- The conversion of the current token in `parse_value`; no value stands for an integer out of range. -/
def scalar (p : ParserState) (requiredKind : ConfigTokenKind) : Option ParsedConfigScalar :=
  if requiredKind = .stringLiteral then some (.string (p.current.decodedString.getD []))
  else if requiredKind = .booleanLiteral then some (.boolean (p.current.lexeme = ascii "true"))
  else
    match fromChars 10 (2 ^ 64 - 1) p.current.lexeme with
    | some (integer,[]) => some (.integer (UInt64.ofNat integer))
    | _ => none

def parseValue (p : ParserState) (expected : ConfigParserExpectation) :
    Except ConfigParserError (ParsedConfigValue × ParserState) :=
  if p.current.kind ≠ tokenKindFor expected then .error (p.makeUnexpectedError expected)
  else
    match p.scalar (tokenKindFor expected) with
    | none => .error ⟨.integerOutOfRange,p.current.location,some expected,some p.current.kind,none,none⟩
    | some scalar =>
      match advance p.lexer with
      | .error e => .error e
      | .ok p' => .ok (⟨scalar,p.current.location⟩,p')

/-- The value after the name at the current token, up to its semicolon. -/
def parseDirective (p : ParserState) (expectedValue : ConfigParserExpectation) :
    Except ConfigParserError (ParsedConfigValue × ParserState) :=
  match advance p.lexer with
  | .error e => .error e
  | .ok atValue =>
    match atValue.parseValue expectedValue with
    | .error e => .error e
    | .ok (value,atSemicolon) =>
      match atSemicolon.consume .semicolon .semicolon with
      | .error e => .error e
      | .ok p' => .ok (value,p')

section Facts
variable {p p' : ParserState} {lexer : ConfigLexer} {value : ParsedConfigValue} {kind : ConfigTokenKind}
  {expected : ConfigParserExpectation}

theorem advance_ok (h : advance lexer = .ok p) : lexer.next = (.ok p.current,p.lexer) := by
  unfold advance at h
  split at h
  · cases h
  · rename_i hnext
    cases h
    exact hnext

theorem consume_ok (h : p.consume kind expected = .ok p') : p.current.kind = kind ∧ advance p.lexer = .ok p' := by
  unfold consume at h
  split at h
  · cases h
  · rename_i hkind
    exact ⟨not_not.mp hkind,h⟩

theorem parseValue_ok (h : p.parseValue expected = .ok (value,p')) :
    p.current.kind = tokenKindFor expected ∧ p.scalar (tokenKindFor expected) = some value.scalar ∧
      value.location = p.current.location ∧ advance p.lexer = .ok p' := by
  unfold parseValue at h
  split at h
  · cases h
  · rename_i hkind
    split at h
    · cases h
    · rename_i scalar hscalar
      split at h
      · cases h
      · rename_i p'' hadvance
        cases h
        exact ⟨not_not.mp hkind,hscalar,rfl,hadvance⟩

theorem parseDirective_ok (h : p.parseDirective expected = .ok (value,p')) :
    ∃ atValue atSemicolon, advance p.lexer = .ok atValue ∧ atValue.parseValue expected = .ok (value,atSemicolon) ∧
      atSemicolon.current.kind = .semicolon ∧ advance atSemicolon.lexer = .ok p' := by
  unfold parseDirective at h
  split at h
  · cases h
  · rename_i atValue hname
    split at h
    · cases h
    · rename_i value' atSemicolon hvalue
      split at h
      · cases h
      · rename_i p'' hlast
        cases h
        obtain ⟨hkind,hadvance⟩ := consume_ok hlast
        exact ⟨atValue,atSemicolon,hname,hvalue,hkind,hadvance⟩

theorem advance_length (h : advance lexer = .ok p) :
    p.lexer.cursor.rest.length ≤ lexer.cursor.rest.length ∧
    (p.current.kind ≠ .endOfInput → p.lexer.cursor.rest.length < lexer.cursor.rest.length) :=
  next_length (advance_ok h)

theorem parseDirective_length (h : p.parseDirective expected = .ok (value,p')) :
    p'.lexer.cursor.rest.length < p.lexer.cursor.rest.length := by
  obtain ⟨atValue,atSemicolon,hname,hvalue,hkind,hlast⟩ := parseDirective_ok h
  have h₁ := (advance_length hname).1
  have h₂ := (advance_length (parseValue_ok hvalue).2.2.2).2 (by simp [hkind])
  have h₃ := (advance_length hlast).1
  omega

/-- The value of a directive has the type that the grammar asks for. -/
theorem parseDirective_typed (h : p.parseDirective expected = .ok (value,p'))
    (hexpected : expected = .stringLiteral ∨ expected = .integerLiteral ∨ expected = .booleanLiteral) :
    value.scalar.expectation = expected := by
  obtain ⟨atValue,atSemicolon,-,hvalue,-⟩ := parseDirective_ok h
  have hscalar := (parseValue_ok hvalue).2.1
  unfold scalar at hscalar
  rcases hexpected with rfl | rfl | rfl
  · exact congrArg ParsedConfigScalar.expectation (Option.some.inj hscalar).symm
  · simp only [tokenKindFor,reduceCtorEq,if_false] at hscalar
    split at hscalar
    · exact congrArg ParsedConfigScalar.expectation (Option.some.inj hscalar).symm
    · cases hscalar
  · exact congrArg ParsedConfigScalar.expectation (Option.some.inj hscalar).symm

end Facts
end ParserState

theorem ServerDirectiveKind.expectation_cases (kind : ServerDirectiveKind) : kind.expectation = .stringLiteral ∨
    kind.expectation = .integerLiteral ∨ kind.expectation = .booleanLiteral := by
  cases kind <;> simp [ServerDirectiveKind.expectation]

theorem LocationDirectiveKind.expectation_cases (kind : LocationDirectiveKind) :
    kind.expectation = .stringLiteral ∨ kind.expectation = .integerLiteral ∨ kind.expectation = .booleanLiteral := by
  cases kind <;> simp [LocationDirectiveKind.expectation]

namespace ParserState

def parseServerDirective (p : ParserState) (kind : ServerDirectiveKind) :
    Except ConfigParserError (ParsedServerDirective × ParserState) :=
  match h : p.parseDirective kind.expectation with
  | .error e => .error e
  | .ok (value,p') =>
    .ok (⟨kind,value,p.current.location,parseDirective_typed h kind.expectation_cases⟩,p')

def parseLocationDirective (p : ParserState) (kind : LocationDirectiveKind) :
    Except ConfigParserError (ParsedLocationDirective × ParserState) :=
  match h : p.parseDirective kind.expectation with
  | .error e => .error e
  | .ok (value,p') =>
    .ok (⟨kind,value,p.current.location,parseDirective_typed h kind.expectation_cases⟩,p')

/-- One pass of the loop of `parse_location`. -/
def parseLocationItem (p : ParserState) : Except ConfigParserError (ParsedLocationDirective × ParserState) :=
  match locationDirectiveKind p.current.lexeme with
  | none => .error (p.makeUnexpectedError .locationItem)
  | some kind =>
    if p.current.kind ≠ .identifier then .error (p.makeUnexpectedError .locationItem)
    else p.parseLocationDirective kind

section Steps
variable {p p' : ParserState}

theorem parseServerDirective_ok {kind : ServerDirectiveKind} {directive : ParsedServerDirective}
    (h : p.parseServerDirective kind = .ok (directive,p')) :
    directive.kind = kind ∧ directive.location = p.current.location ∧
      p.parseDirective kind.expectation = .ok (directive.value,p') := by
  unfold parseServerDirective at h
  split at h
  · cases h
  · rename_i value p'' hvalue
    cases h
    exact ⟨rfl,rfl,hvalue⟩

theorem parseLocationDirective_ok {kind : LocationDirectiveKind} {directive : ParsedLocationDirective}
    (h : p.parseLocationDirective kind = .ok (directive,p')) :
    directive.kind = kind ∧ directive.location = p.current.location ∧
      p.parseDirective kind.expectation = .ok (directive.value,p') := by
  unfold parseLocationDirective at h
  split at h
  · cases h
  · rename_i value p'' hvalue
    cases h
    exact ⟨rfl,rfl,hvalue⟩

theorem parseServerDirective_of {kind : ServerDirectiveKind} {value : ParsedConfigValue}
    (h : p.parseDirective kind.expectation = .ok (value,p')) :
    ∃ directive, p.parseServerDirective kind = .ok (directive,p') ∧ directive.kind = kind ∧ directive.value = value := by
  unfold parseServerDirective
  split
  · rename_i e he
    rw [he] at h
    cases h
  · rename_i value' p'' hok
    obtain ⟨rfl,rfl⟩ := Prod.mk.inj (Except.ok.inj (hok.symm.trans h))
    exact ⟨_,rfl,rfl,rfl⟩

theorem parseLocationDirective_of {kind : LocationDirectiveKind} {value : ParsedConfigValue}
    (h : p.parseDirective kind.expectation = .ok (value,p')) :
    ∃ directive, p.parseLocationDirective kind = .ok (directive,p') ∧ directive.kind = kind ∧
      directive.value = value := by
  unfold parseLocationDirective
  split
  · rename_i e he
    rw [he] at h
    cases h
  · rename_i value' p'' hok
    obtain ⟨rfl,rfl⟩ := Prod.mk.inj (Except.ok.inj (hok.symm.trans h))
    exact ⟨_,rfl,rfl,rfl⟩

theorem parseLocationItem_ok {directive : ParsedLocationDirective} (h : p.parseLocationItem = .ok (directive,p')) :
    p.current.kind = .identifier ∧ locationDirectiveKind p.current.lexeme = some directive.kind ∧
      p.parseDirective directive.kind.expectation = .ok (directive.value,p') := by
  unfold parseLocationItem at h
  split at h
  · cases h
  · rename_i kind hkind
    split at h
    · cases h
    · rename_i hidentifier
      obtain ⟨rfl,-,hvalue⟩ := parseLocationDirective_ok h
      exact ⟨not_not.mp hidentifier,hkind,hvalue⟩

end Steps

/-- The loop of `parse_location`; it ends at a closing brace or at the end of the input. -/
def parseLocationItems (p : ParserState) (directives : List ParsedLocationDirective) :
    Except ConfigParserError (List ParsedLocationDirective × ParserState) :=
  if p.current.kind = .rightBrace ∨ p.current.kind = .endOfInput then .ok (directives,p)
  else
    match _h : p.parseLocationItem with
    | .error e => .error e
    | .ok (directive,p') => parseLocationItems p' (directives ++ [directive])
termination_by p.lexer.cursor.rest.length
decreasing_by exact parseDirective_length (parseLocationItem_ok _h).2.2

def parseLocation (p : ParserState) : Except ConfigParserError (ParsedLocationBlock × ParserState) :=
  match advance p.lexer with
  | .error e => .error e
  | .ok atPath =>
    if atPath.current.kind ≠ .stringLiteral then .error (atPath.makeUnexpectedError .stringLiteral)
    else
      match advance atPath.lexer with
      | .error e => .error e
      | .ok atBrace =>
        match atBrace.consume .leftBrace .leftBrace with
        | .error e => .error e
        | .ok atItems =>
          match atItems.parseLocationItems [] with
          | .error e => .error e
          | .ok (directives,atClose) =>
            if atClose.current.kind ≠ .rightBrace then .error (atClose.makeUnexpectedError .rightBrace)
            else
              match advance atClose.lexer with
              | .error e => .error e
              | .ok p' =>
                .ok (⟨atPath.current.decodedString.getD [],p.current.location,atPath.current.location,
                  atClose.current.location,directives⟩,p')

def parseServerItem (p : ParserState) (server : ParsedServerBlock) :
    Except ConfigParserError (ParsedServerBlock × ParserState) :=
  if p.current.kind ≠ .identifier then .error (p.makeUnexpectedError .serverItem)
  else if p.current.lexeme = ascii "location" then
    match p.parseLocation with
    | .error e => .error e
    | .ok (location,p') => .ok ({ server with locations := server.locations ++ [location] },p')
  else
    match serverDirectiveKind p.current.lexeme with
    | none => .error (p.makeUnexpectedError .serverItem)
    | some kind =>
      match p.parseServerDirective kind with
      | .error e => .error e
      | .ok (directive,p') => .ok ({ server with directives := server.directives ++ [directive] },p')

section Blocks
variable {p p' : ParserState} {server server' : ParsedServerBlock}

theorem parseLocationItems_length {directives directives' : List ParsedLocationDirective}
    (h : p.parseLocationItems directives = .ok (directives',p')) :
    p'.lexer.cursor.rest.length ≤ p.lexer.cursor.rest.length := by
  fun_induction parseLocationItems p directives with
  | case1 =>
    cases h
    exact le_rfl
  | case2 => cases h
  | case3 p directives _ directive p'' hitem ih =>
    exact (ih h).trans (parseDirective_length (parseLocationItem_ok hitem).2.2).le

theorem parseLocationItems_stop {directives : List ParsedLocationDirective} (h : p.current.kind = .rightBrace) :
    p.parseLocationItems directives = .ok (directives,p) := by
  rw [parseLocationItems,if_pos (Or.inl h)]

theorem parseLocationItems_step {directives : List ParsedLocationDirective} {directive : ParsedLocationDirective}
    (h : p.parseLocationItem = .ok (directive,p')) :
    p.parseLocationItems directives = p'.parseLocationItems (directives ++ [directive]) := by
  have hkind := (parseLocationItem_ok h).1
  rw [parseLocationItems,if_neg (by simp [hkind])]
  split
  · rename_i e he
    rw [he] at h
    cases h
  · rename_i directive' p'' hok
    obtain ⟨rfl,rfl⟩ := Prod.mk.inj (Except.ok.inj (hok.symm.trans h))
    rfl

theorem parseLocation_ok {location : ParsedLocationBlock} (h : p.parseLocation = .ok (location,p')) :
    ∃ atPath atBrace atItems atClose, advance p.lexer = .ok atPath ∧ atPath.current.kind = .stringLiteral ∧
      atPath.current.decodedString.getD [] = location.apiPath ∧ advance atPath.lexer = .ok atBrace ∧
      atBrace.current.kind = .leftBrace ∧ advance atBrace.lexer = .ok atItems ∧
      atItems.parseLocationItems [] = .ok (location.directives,atClose) ∧ atClose.current.kind = .rightBrace ∧
      advance atClose.lexer = .ok p' := by
  unfold parseLocation at h
  split at h
  · cases h
  · rename_i atPath hpath
    split at h
    · cases h
    · rename_i hstring
      split at h
      · cases h
      · rename_i atBrace hbrace
        split at h
        · cases h
        · rename_i atItems hitems
          split at h
          · cases h
          · rename_i directives atClose hdirectives
            split at h
            · cases h
            · rename_i hclose
              split at h
              · cases h
              · rename_i p'' hlast
                cases h
                obtain ⟨hopen,hitems⟩ := consume_ok hitems
                exact ⟨atPath,atBrace,atItems,atClose,hpath,not_not.mp hstring,rfl,hbrace,hopen,hitems,
                  hdirectives,not_not.mp hclose,hlast⟩

theorem parseLocation_length {location : ParsedLocationBlock} (h : p.parseLocation = .ok (location,p')) :
    p'.lexer.cursor.rest.length < p.lexer.cursor.rest.length := by
  obtain ⟨atPath,atBrace,atItems,atClose,hpath,hstring,-,hbrace,-,hitems,hdirectives,-,hlast⟩ := parseLocation_ok h
  have h₁ := (advance_length hpath).2 (by simp [hstring])
  have h₂ := (advance_length hbrace).1
  have h₃ := (advance_length hitems).1
  have h₄ := parseLocationItems_length hdirectives
  have h₅ := (advance_length hlast).1
  omega

theorem parseServerItem_ok (h : p.parseServerItem server = .ok (server',p')) :
    p.current.kind = .identifier ∧
    ((∃ location, p.current.lexeme = ascii "location" ∧ p.parseLocation = .ok (location,p') ∧
        server' = { server with locations := server.locations ++ [location] }) ∨
      ∃ directive, p.current.lexeme ≠ ascii "location" ∧
        serverDirectiveKind p.current.lexeme = some directive.kind ∧
        p.parseDirective directive.kind.expectation = .ok (directive.value,p') ∧
        server' = { server with directives := server.directives ++ [directive] }) := by
  unfold parseServerItem at h
  split at h
  · cases h
  · rename_i hidentifier
    refine ⟨not_not.mp hidentifier,?_⟩
    split at h
    · rename_i hname
      split at h
      · cases h
      · rename_i location p'' hlocation
        cases h
        exact Or.inl ⟨location,hname,hlocation,rfl⟩
    · rename_i hname
      split at h
      · cases h
      · rename_i kind hkind
        split at h
        · cases h
        · rename_i directive p'' hdirective
          cases h
          obtain ⟨rfl,-,hvalue⟩ := parseServerDirective_ok hdirective
          exact Or.inr ⟨directive,hname,hkind,hvalue,rfl⟩

theorem parseServerItem_length (h : p.parseServerItem server = .ok (server',p')) :
    p'.lexer.cursor.rest.length < p.lexer.cursor.rest.length := by
  rcases (parseServerItem_ok h).2 with ⟨location,-,hlocation,-⟩ | ⟨directive,-,-,hdirective,-⟩
  · exact parseLocation_length hlocation
  · exact parseDirective_length hdirective

end Blocks

/-- The loop of `parse` over the items of the server block. -/
def parseServerItems (p : ParserState) (server : ParsedServerBlock) :
    Except ConfigParserError (ParsedServerBlock × ParserState) :=
  if p.current.kind = .rightBrace ∨ p.current.kind = .endOfInput then .ok (server,p)
  else
    match _h : p.parseServerItem server with
    | .error e => .error e
    | .ok (server',p') => parseServerItems p' server'
termination_by p.lexer.cursor.rest.length
decreasing_by exact parseServerItem_length _h

theorem parseServerItems_stop {p : ParserState} {server : ParsedServerBlock} (h : p.current.kind = .rightBrace) :
    p.parseServerItems server = .ok (server,p) := by
  rw [parseServerItems,if_pos (Or.inl h)]

theorem parseServerItems_step {p p' : ParserState} {server server' : ParsedServerBlock}
    (h : p.parseServerItem server = .ok (server',p')) : p.parseServerItems server = p'.parseServerItems server' := by
  have hkind := (parseServerItem_ok h).1
  rw [parseServerItems,if_neg (by simp [hkind])]
  split
  · rename_i e he
    rw [he] at h
    cases h
  · rename_i server'' p'' hok
    obtain ⟨rfl,rfl⟩ := Prod.mk.inj (Except.ok.inj (hok.symm.trans h))
    rfl

def parse (lexer : ConfigLexer) : Except ConfigParserError ParsedConfiguration :=
  match advance lexer with
  | .error e => .error e
  | .ok p =>
    if !p.isIdentifier (ascii "server") then .error (p.makeUnexpectedError .serverKeyword)
    else
      match advance p.lexer with
      | .error e => .error e
      | .ok atBrace =>
        match atBrace.consume .leftBrace .leftBrace with
        | .error e => .error e
        | .ok atItems =>
          match atItems.parseServerItems ⟨p.current.location,{},[],[]⟩ with
          | .error e => .error e
          | .ok (server,atClose) =>
            if atClose.current.kind ≠ .rightBrace then .error (atClose.makeUnexpectedError .rightBrace)
            else
              match advance atClose.lexer with
              | .error e => .error e
              | .ok atEnd =>
                if atEnd.current.kind ≠ .endOfInput then .error (atEnd.makeUnexpectedError .endOfInput)
                else .ok ⟨{ server with closingBraceLocation := atClose.current.location },atEnd.current.location⟩

theorem parse_ok {lexer : ConfigLexer} {configuration : ParsedConfiguration} (h : parse lexer = .ok configuration) :
    ∃ p atBrace atItems server atClose atEnd, advance lexer = .ok p ∧ p.current.kind = .identifier ∧
      p.current.lexeme = ascii "server" ∧ advance p.lexer = .ok atBrace ∧ atBrace.current.kind = .leftBrace ∧
      advance atBrace.lexer = .ok atItems ∧
      atItems.parseServerItems ⟨p.current.location,{},[],[]⟩ = .ok (server,atClose) ∧
      atClose.current.kind = .rightBrace ∧ advance atClose.lexer = .ok atEnd ∧ atEnd.current.kind = .endOfInput ∧
      configuration.server.directives = server.directives ∧ configuration.server.locations = server.locations := by
  unfold parse at h
  split at h
  · cases h
  · rename_i p hfirst
    split at h
    · cases h
    · rename_i hserver
      split at h
      · cases h
      · rename_i atBrace hbrace
        split at h
        · cases h
        · rename_i atItems hitems
          split at h
          · cases h
          · rename_i server atClose hloop
            split at h
            · cases h
            · rename_i hclose
              split at h
              · cases h
              · rename_i atEnd hlast
                split at h
                · cases h
                · rename_i hend
                  cases h
                  have hserver : p.current.kind = .identifier ∧ p.current.lexeme = ascii "server" := by
                    simpa [isIdentifier] using hserver
                  obtain ⟨hopen,hitems⟩ := consume_ok hitems
                  exact ⟨p,atBrace,atItems,server,atClose,atEnd,hfirst,hserver.1,hserver.2,hbrace,hopen,hitems,hloop,
                    not_not.mp hclose,hlast,not_not.mp hend,rfl,rfl⟩

end ParserState
end SpareNode.Configuration
