import SpareNode.Configuration.ConfigLexer

/-! # The credential file

Provisioning writes one `owner` block; `FileCredentialProvider` reads it back through the
configuration lexer and a parser of its own. Hashing and the check of an encoded verifier are
the cryptographic library's and stay parameters.
-/
namespace SpareNode.Authentication
open SpareNode.Configuration

inductive PasswordVerifierErrorCode where
  | initializationFailed | emptyPassword | passwordTooLarge | invalidVerifier | hashingFailed
  | resourceExhausted
deriving DecidableEq, Repr

/-- The part of the `PasswordVerifier` port that provisioning and loading call. -/
structure PasswordVerifier where
  hash : Bytes → Except PasswordVerifierErrorCode Bytes
  isUsable : Bytes → Bool

structure CredentialRecord where
  identity : Bytes
  canonicalLogin : Bytes
  encodedPasswordVerifier : Bytes
deriving DecidableEq

inductive CredentialProvisioningErrorCode where
  | openFailed | notRegularFile | readFailed | fileTooLarge | malformedFile | missingLogin
  | missingVerifier | invalidLogin | invalidVerifier | resourceExhausted
deriving DecidableEq, Repr

inductive CredentialFileProvisioningErrorCode where
  | invalidLogin | emptyPassword | passwordTooLarge | outputExists | openFailed | writeFailed
  | hashingFailed | resourceExhausted
deriving DecidableEq, Repr

def maximumOwnerLoginBytes : ℕ := 128

def maximumCredentialFileBytes : ℕ := 4096

def isValidOwnerLogin (login : Bytes) : Bool :=
  if login.isEmpty || maximumOwnerLoginBytes < login.length then false
  else !login.any (fun b => b < 0x20 || b = 0x7F)

def escapeLogin (login : Bytes) : Bytes :=
  login.flatMap (fun b => if b = char '\\' || b = char '"' then [char '\\',b] else [b])

def credentialSource (login encodedVerifier : Bytes) : Bytes :=
  ascii "owner \x7b\n    login \"" ++ escapeLogin login ++ ascii "\";\n    password_verifier \"" ++
    encodedVerifier ++ ascii "\";\n\x7d\n"

def mapVerifierError : PasswordVerifierErrorCode → CredentialFileProvisioningErrorCode
  | .emptyPassword => .emptyPassword
  | .passwordTooLarge => .passwordTooLarge
  | .resourceExhausted => .resourceExhausted
  | .initializationFailed => .hashingFailed
  | .invalidVerifier => .hashingFailed
  | .hashingFailed => .hashingFailed

/-- `CredentialFileProvisioner::provision`; `writeExclusiveFile` is what happens to the text. -/
def provision (writeExclusiveFile : Bytes → Except CredentialFileProvisioningErrorCode Unit)
    (login password : Bytes) (verifier : PasswordVerifier) :
    Except CredentialFileProvisioningErrorCode Unit :=
  if !isValidOwnerLogin login then .error .invalidLogin else
    match verifier.hash password with
    | .error code => .error (mapVerifierError code)
    | .ok encoded => writeExclusiveFile (credentialSource login encoded)

structure ParsedCredentialValues where
  login : Option Bytes := none
  encodedVerifier : Option Bytes := none

structure CredentialSourceParser where
  lexer : ConfigLexer
  current : ConfigToken

namespace CredentialSourceParser

/-- No value stands for a lexical error, which ends the parse. -/
def advance (lexer : ConfigLexer) : Option CredentialSourceParser :=
  match lexer.next with
  | (.error _,_) => none
  | (.ok token,lexer') => some ⟨lexer',token⟩

def consume (p : CredentialSourceParser) (kind : ConfigTokenKind) : Option CredentialSourceParser :=
  if p.current.kind = kind then advance p.lexer else none

def isIdentifier (p : CredentialSourceParser) (value : Bytes) : Bool :=
  p.current.kind = .identifier && p.current.lexeme = value

/-- The value and the parser after `name "value";`. -/
def directiveValue (p : CredentialSourceParser) : Option (Bytes × CredentialSourceParser) :=
  if p.current.kind ≠ .identifier then none else
    match advance p.lexer with
    | none => none
    | some atValue =>
      if atValue.current.kind ≠ .stringLiteral then none else
        match atValue.current.decodedString with
        | none => none
        | some value =>
          match advance atValue.lexer with
          | none => none
          | some atSemicolon =>
            match atSemicolon.consume .semicolon with
            | none => none
            | some p' => some (value,p')

def parseDirective (p : CredentialSourceParser) (values : ParsedCredentialValues) :
    Option (ParsedCredentialValues × CredentialSourceParser) :=
  match p.directiveValue with
  | none => none
  | some (value,p') =>
    if p.current.lexeme = ascii "login" && values.login.isNone then
      some ({ values with login := some value },p')
    else if p.current.lexeme = ascii "password_verifier" && values.encodedVerifier.isNone then
      some ({ values with encodedVerifier := some value },p')
    else none

theorem advance_length {lexer : ConfigLexer} {p : CredentialSourceParser} (h : advance lexer = some p) :
    p.lexer.cursor.rest.length ≤ lexer.cursor.rest.length ∧
    (p.current.kind ≠ .endOfInput → p.lexer.cursor.rest.length < lexer.cursor.rest.length) := by
  unfold advance at h
  split at h
  · cases h
  · rename_i token lexer' hnext
    cases h
    exact next_length hnext

theorem directiveValue_length {p p' : CredentialSourceParser} {value : Bytes}
    (h : p.directiveValue = some (value,p')) :
    p'.lexer.cursor.rest.length < p.lexer.cursor.rest.length := by
  unfold directiveValue at h
  split at h
  · cases h
  · split at h
    · cases h
    · rename_i atValue hvalue
      split at h
      · cases h
      · rename_i hkind
        split at h
        · cases h
        · split at h
          · cases h
          · rename_i atSemicolon hsemicolon
            unfold consume at h
            split at h
            · cases h
            · rename_i p'' hlast
              cases h
              split at hlast
              · have h₁ := (advance_length hvalue).2 (by
                  intro hend
                  exact hkind (by simp [hend]))
                have h₂ := (advance_length hsemicolon).1
                have h₃ := (advance_length hlast).1
                omega
              · cases hlast

theorem parseDirective_length {p p' : CredentialSourceParser} {values values' : ParsedCredentialValues}
    (h : p.parseDirective values = some (values',p')) :
    p'.lexer.cursor.rest.length < p.lexer.cursor.rest.length := by
  unfold parseDirective at h
  split at h
  · cases h
  · rename_i value p'' hvalue
    have hlt := directiveValue_length hvalue
    repeat' split at h
    all_goals cases h
    all_goals exact hlt

/-- The loop over the directives of the block, up to its closing brace. -/
def parseDirectives (p : CredentialSourceParser) (values : ParsedCredentialValues) :
    Option (ParsedCredentialValues × CredentialSourceParser) :=
  if p.current.kind = .rightBrace then some (values,p)
  else if p.current.kind = .endOfInput then none
  else
    match _h : p.parseDirective values with
    | none => none
    | some (values',p') => parseDirectives p' values'
termination_by p.lexer.cursor.rest.length
decreasing_by exact parseDirective_length _h

section Directives
variable {p p' : CredentialSourceParser} {values values' : ParsedCredentialValues}

theorem parseDirectives_step (hkind : p.current.kind = .identifier)
    (h : p.parseDirective values = some (values',p')) :
    p.parseDirectives values = p'.parseDirectives values' := by
  rw [parseDirectives,if_neg (by simp [hkind]),if_neg (by simp [hkind])]
  split
  · rename_i hnone
    rw [hnone] at h
    cases h
  · rename_i values'' p'' hsome
    rw [hsome] at h
    cases h
    rfl

theorem parseDirectives_fail (hkind : p.current.kind = .identifier)
    (h : p.parseDirective values = none) : p.parseDirectives values = none := by
  rw [parseDirectives,if_neg (by simp [hkind]),if_neg (by simp [hkind])]
  split
  · rfl
  · rename_i values'' p'' hsome
    rw [hsome] at h
    cases h

end Directives

def closeBlock (block : ParsedCredentialValues × CredentialSourceParser) :
    Option ParsedCredentialValues :=
  match advance block.2.lexer with
  | none => none
  | some p => if p.current.kind = .endOfInput then some block.1 else none

def parseOwnerBlock (lexer : ConfigLexer) : Option ParsedCredentialValues :=
  match advance lexer with
  | none => none
  | some p =>
    if !p.isIdentifier (ascii "owner") then none else
      match (advance p.lexer).bind (fun p' => p'.consume .leftBrace) with
      | none => none
      | some p' => (p'.parseDirectives {}).bind closeBlock

/-- `CredentialSourceParser::parse`: every syntax failure is `malformed_file`. -/
def parse (lexer : ConfigLexer) : Except CredentialProvisioningErrorCode ParsedCredentialValues :=
  match parseOwnerBlock lexer with
  | none => .error .malformedFile
  | some values => .ok values

end CredentialSourceParser

/-- `FileCredentialProvider::create_from_source`, up to the record the provider keeps. -/
def createFromSource (source : Bytes) (verifier : PasswordVerifier) :
    Except CredentialProvisioningErrorCode CredentialRecord :=
  if maximumCredentialFileBytes < source.length then .error .fileTooLarge else
    match ConfigLexer.create source with
    | .error _ => .error .malformedFile
    | .ok lexer =>
      match CredentialSourceParser.parse lexer with
      | .error code => .error code
      | .ok values =>
        match values.login, values.encodedVerifier with
        | none, _ => .error .missingLogin
        | some _, none => .error .missingVerifier
        | some login, some encoded =>
          if !isValidOwnerLogin login then .error .invalidLogin
          else if !verifier.isUsable encoded then .error .invalidVerifier
          else .ok ⟨ascii "owner",login,encoded⟩

end SpareNode.Authentication
