import SpareNode.Authentication.LoginSpelling

/-! # The credential file round trip

The written block is read token by token. Only the login can stop the reader: the provider
loads back what was written exactly when the login is well-formed UTF-8 without U+FEFF,
which the check that provisioning makes of a login does not ask for.
-/
namespace SpareNode.Authentication
open SpareNode.Configuration CredentialSourceParser

/-- The parser stands on a token, with `t` left to read. -/
structure Stands (p : CredentialSourceParser) (kind : ConfigTokenKind) (lexeme : Bytes)
    (decoded : Option Bytes) (t : Bytes) : Prop where
  kind : p.current.kind = kind
  lexeme : p.current.lexeme = lexeme
  decoded : p.current.decodedString = decoded
  healthy : p.lexer.terminalError = none
  rest : p.lexer.cursor.rest = t

section Parsing
variable {p : CredentialSourceParser} {lexer : ConfigLexer} {kind : ConfigTokenKind}
  {lexeme raw value t t' : Bytes} {decoded : Option Bytes}

theorem advance_emits (h : Emits lexer kind lexeme decoded t) :
    ∃ p, advance lexer = some p ∧ Stands p kind lexeme decoded t := by
  obtain ⟨location,lexer',hnext,hhealthy,hrest⟩ := h
  exact ⟨⟨lexer',⟨kind,lexeme,decoded,location⟩⟩,by simp [advance,hnext],rfl,rfl,rfl,hhealthy,hrest⟩

theorem consume_emits {name : ConfigTokenKind} {bytes : Bytes} (hp : Stands p name bytes none t)
    (h : Emits p.lexer kind lexeme decoded t') :
    ∃ p', p.consume name = some p' ∧ Stands p' kind lexeme decoded t' := by
  obtain ⟨p',hadvance,hstands⟩ := advance_emits h
  exact ⟨p',by rw [consume,if_pos hp.kind,hadvance],hstands⟩

/-- A directive with a spelled value, before a token that the rest of the input begins with. -/
theorem directiveValue_spells {name : Bytes}
    (hp : Stands p .identifier name none (ascii " \"" ++ raw ++ ascii "\";" ++ t))
    (hspells : Spells raw value) (hnext : ∀ lexer : ConfigLexer, lexer.terminalError = none →
      lexer.cursor.rest = t → Emits lexer kind lexeme decoded t') :
    ∃ p', p.directiveValue = some (value,p') ∧ Stands p' kind lexeme decoded t' := by
  have hrest : p.lexer.cursor.rest =
      [char ' '] ++ (char '"' :: (raw ++ char '"' :: (char ';' :: t))) := by
    rw [hp.rest]
    simp [ascii,char]
  obtain ⟨atValue,hvalue,hatValue⟩ := advance_emits (emits_string hp.healthy hrest (by decide) hspells)
  have hsemicolon : Emits atValue.lexer .semicolon [char ';'] none t :=
    emits_punctuation (w := []) hatValue.healthy (by rw [hatValue.rest,List.nil_append]) rfl rfl
  obtain ⟨atSemicolon,hadvance,hatSemicolon⟩ := advance_emits hsemicolon
  obtain ⟨p',hconsume,hstands⟩ := consume_emits hatSemicolon
    (hnext atSemicolon.lexer hatSemicolon.healthy hatSemicolon.rest)
  refine ⟨p',?_,hstands⟩
  simp [directiveValue,hp.kind,hvalue,hatValue.kind,hatValue.decoded,hadvance,hconsume]

/-- A value that nothing up to a quote spells stops the parser. -/
theorem directiveValue_unspelled {name : Bytes}
    (hp : Stands p .identifier name none (ascii " \"" ++ t))
    (h : ∀ raw value rest, Spells raw value → t = raw ++ rest →
      ¬(rest = [] ∨ rest.head? = some (char '"'))) : p.directiveValue = none := by
  have hrest : p.lexer.cursor.rest = [char ' '] ++ (char '"' :: t) := by
    rw [hp.rest]
    simp [ascii,char]
  obtain ⟨e,lexer',hnext⟩ := next_string_error hp.healthy hrest (by decide) h
  have hadvance : advance p.lexer = none := by simp [advance,hnext]
  simp [directiveValue,hp.kind,hadvance]

end Parsing

/-- What is left to read after `name` of the login directive. -/
def loginTail (login encoded : Bytes) : Bytes :=
  ascii " \"" ++ escapeLogin login ++ ascii "\";" ++ (ascii "\n    password_verifier" ++
    (ascii " \"" ++ encoded ++ ascii "\";" ++ ascii "\n\x7d\n"))

theorem credentialSource_eq (login encoded : Bytes) : credentialSource login encoded =
    ascii "owner" ++ (ascii " \x7b" ++ (ascii "\n    login" ++ loginTail login encoded)) := by
  simp [credentialSource,loginTail,ascii]

section Block
variable {lexer : ConfigLexer} {login encoded : Bytes}

/-- Up to the value of the login the block is fixed text. -/
theorem parseOwnerBlock_login (hhealthy : lexer.terminalError = none)
    (hrest : lexer.cursor.rest = credentialSource login encoded) :
    ∃ p, Stands p .identifier (ascii "login") none (loginTail login encoded) ∧
      parseOwnerBlock lexer = (p.parseDirectives {}).bind closeBlock := by
  rw [credentialSource_eq] at hrest
  have howner : Emits lexer .identifier (ascii "owner") none
      (ascii " \x7b" ++ (ascii "\n    login" ++ loginTail login encoded)) :=
    emits_identifier (w := []) (b := char 'o') (x := ascii "wner") hhealthy hrest rfl (by decide)
      (by decide) (by simp [ascii]; decide) (by decide)
  obtain ⟨p₁,h₁,hp₁⟩ := advance_emits howner
  have hbrace : Emits p₁.lexer .leftBrace [0x7B] none
      (ascii "\n    login" ++ loginTail login encoded) :=
    emits_punctuation (w := [char ' ']) hp₁.healthy (by rw [hp₁.rest]; rfl) (by decide) rfl
  obtain ⟨p₂,h₂,hp₂⟩ := advance_emits hbrace
  have hlogin : Emits p₂.lexer .identifier (ascii "login") none (loginTail login encoded) :=
    emits_identifier (w := ascii "\n    ") (b := char 'l') (x := ascii "ogin") hp₂.healthy
      (by rw [hp₂.rest]; rfl) (by decide) (by decide) (by decide)
      (by simp [loginTail,ascii]; decide) (by decide)
  obtain ⟨p₃,h₃,hp₃⟩ := consume_emits hp₂ hlogin
  refine ⟨p₃,hp₃,?_⟩
  simp [parseOwnerBlock,h₁,isIdentifier,hp₁.kind,hp₁.lexeme,h₂,h₃]

/-- A loadable login and a plain verifier are read back. -/
theorem parseOwnerBlock_loadable (hhealthy : lexer.terminalError = none)
    (hrest : lexer.cursor.rest = credentialSource login encoded)
    (hlogin : Spells (escapeLogin login) login) (hencoded : Spells encoded encoded) :
    parseOwnerBlock lexer = some ⟨some login,some encoded⟩ := by
  obtain ⟨p,hp,hparse⟩ := parseOwnerBlock_login hhealthy hrest
  have hverifier : ∀ lexer : ConfigLexer, lexer.terminalError = none →
      lexer.cursor.rest = ascii "\n    password_verifier" ++
        (ascii " \"" ++ encoded ++ ascii "\";" ++ ascii "\n\x7d\n") →
      Emits lexer .identifier (ascii "password_verifier") none
        (ascii " \"" ++ encoded ++ ascii "\";" ++ ascii "\n\x7d\n") := by
    intro lexer hh hr
    exact emits_identifier (w := ascii "\n    ") (b := char 'p') (x := ascii "assword_verifier") hh
      hr (by decide) (by decide) (by decide) (by simp [ascii]; decide) (by decide)
  obtain ⟨p₁,h₁,hp₁⟩ := directiveValue_spells hp hlogin hverifier
  have hbrace : ∀ lexer : ConfigLexer, lexer.terminalError = none →
      lexer.cursor.rest = ascii "\n\x7d\n" → Emits lexer .rightBrace [0x7D] none (ascii "\n") := by
    intro lexer hh hr
    exact emits_punctuation (w := ascii "\n") hh hr (by decide) rfl
  obtain ⟨p₂,h₂,hp₂⟩ := directiveValue_spells hp₁ hencoded hbrace
  obtain ⟨last,hlast,hplast⟩ := advance_emits (emits_end hp₂.healthy hp₂.rest (by decide))
  have hfirst : p.parseDirective {} = some ({ login := some login },p₁) := by
    simp [parseDirective,h₁,hp.lexeme]
  have hsecond : p₁.parseDirective { login := some login } = some (⟨some login,some encoded⟩,p₂) := by
    simp only [parseDirective,h₂,hp₁.lexeme]
    rfl
  have hall : p.parseDirectives {} = some (⟨some login,some encoded⟩,p₂) := by
    rw [parseDirectives_step hp.kind hfirst,parseDirectives_step hp₁.kind hsecond,parseDirectives,
      if_pos hp₂.kind]
  rw [hparse,hall]
  simp [closeBlock,hlast,hplast.kind]

/-- A login that is not loadable leaves a malformed file. -/
theorem parseOwnerBlock_unloadable (hhealthy : lexer.terminalError = none)
    (hrest : lexer.cursor.rest = credentialSource login encoded) (h : ¬Loadable login) :
    parseOwnerBlock lexer = none := by
  obtain ⟨p,hp,hparse⟩ := parseOwnerBlock_login hhealthy hrest
  have htail : loginTail login encoded = ascii " \"" ++ (escapeLogin login ++ char '"' ::
      (char ';' :: (ascii "\n    password_verifier" ++
        (ascii " \"" ++ encoded ++ ascii "\";" ++ ascii "\n\x7d\n")))) := by
    simp [loginTail,ascii,char]
  rw [htail] at hp
  have hvalue : p.directiveValue = none := by
    apply directiveValue_unspelled hp
    intro raw value rest hspells heq hend
    exact h (loadable_of_spells hspells heq hend)
  have hdirective : p.parseDirective {} = none := by simp [parseDirective,hvalue]
  rw [hparse,parseDirectives_fail hp.kind hdirective]
  rfl

end Block

def PlainVerifier (encoded : Bytes) : Prop :=
  ∀ b ∈ encoded, 0x20 ≤ b ∧ b < 0x7F ∧ b ≠ char '"' ∧ b ≠ char '\\'

instance (encoded : Bytes) : Decidable (PlainVerifier encoded) :=
  List.decidableBAll (fun b => 0x20 ≤ b ∧ b < 0x7F ∧ b ≠ char '"' ∧ b ≠ char '\\') encoded

theorem spells_plainVerifier {encoded : Bytes} (h : PlainVerifier encoded) :
    Spells encoded encoded := by
  have hescape : escapeLogin encoded = encoded := by
    have happ := escapeLogin_append (s := encoded) (t := []) (fun b hb => by
      obtain ⟨-,-,hquote,hslash⟩ := h b hb
      simp [isEscaped,hquote,hslash])
    rwa [List.append_nil,show escapeLogin [] = [] from rfl,List.append_nil] at happ
  have hspells := spells_escapeLogin (s := encoded) (fun b hb => UInt8.not_lt.mpr (h b hb).1)
    (loadable_of_ascii (fun b hb => UInt8.lt_trans (h b hb).2.1 (by decide)))
  rwa [hescape] at hspells

theorem isValidOwnerLogin_printable {login : Bytes} (h : isValidOwnerLogin login = true) :
    Printable login := by
  unfold isValidOwnerLogin at h
  split at h
  · cases h
  · intro b hb hcontrol
    simp only [Bool.not_eq_eq_eq_not,Bool.not_true,List.any_eq_false] at h
    exact h b hb (by simp [hcontrol])

/-- The written source fits the lexer and begins with no byte-order mark. -/
theorem create_credentialSource {login encoded : Bytes}
    (hsize : (credentialSource login encoded).length ≤ maximumCredentialFileBytes) :
    ConfigLexer.create (credentialSource login encoded) =
      .ok { cursor := ⟨credentialSource login encoded,{}⟩ } := by
  have hlimit : ¬maxInputSizeBytes < (credentialSource login encoded).length := by
    have : maximumCredentialFileBytes < maxInputSizeBytes := by decide
    omega
  have hmark : hasByteOrderMark (credentialSource login encoded) = false := rfl
  rw [ConfigLexer.create,if_neg hlimit,hmark]
  rfl

/-- Provisioning writes a text that the provider loads as the same login and verifier. -/
def RoundTrips (verifier : PasswordVerifier) (login password encoded : Bytes) : Prop :=
  (∀ write, provision write login password verifier = write (credentialSource login encoded)) ∧
  createFromSource (credentialSource login encoded) verifier = .ok ⟨ascii "owner",login,encoded⟩

/-- The round trip succeeds for exactly the logins that are well-formed UTF-8 without U+FEFF. -/
theorem credentialSource_round_trip_iff (verifier : PasswordVerifier) (login password encoded : Bytes)
    (hlogin : isValidOwnerLogin login = true) (hhash : verifier.hash password = .ok encoded)
    (hencoded : PlainVerifier encoded) (husable : verifier.isUsable encoded = true)
    (hsize : (credentialSource login encoded).length ≤ maximumCredentialFileBytes) :
    RoundTrips verifier login password encoded ↔ Loadable login := by
  have hcreate := create_credentialSource hsize
  constructor
  · rintro ⟨-,hload⟩
    by_contra h
    have hparse : parseOwnerBlock { cursor := ⟨credentialSource login encoded,{}⟩ } = none :=
      parseOwnerBlock_unloadable rfl rfl h
    simp [createFromSource,not_lt.mpr hsize,hcreate,parse,hparse] at hload
  · intro h
    refine ⟨fun write => by simp [provision,hlogin,hhash],?_⟩
    have hparse : parseOwnerBlock { cursor := ⟨credentialSource login encoded,{}⟩ } =
        some ⟨some login,some encoded⟩ :=
      parseOwnerBlock_loadable rfl rfl
        (spells_escapeLogin (isValidOwnerLogin_printable hlogin) h) (spells_plainVerifier hencoded)
    simp [createFromSource,not_lt.mpr hsize,hcreate,parse,hparse,hlogin,husable]

/-- A verifier of the supported profile, as the hasher would return it. -/
def sampleVerifierText : Bytes :=
  ascii "$argon2id$v=19$m=65536,t=2,p=1$c2FsdHNhbHRzYWx0c2FsdA$aGFzaGhhc2hoYXNoaGFzaGhhc2hoYXNoaGFzaGhhc2g"

def sampleVerifier : PasswordVerifier where
  hash _ := .ok sampleVerifierText
  isUsable encoded := encoded = sampleVerifierText

/-- The login `é"\` is written with two escapes and loaded back. -/
theorem credentialSource_round_trip_escaped :
    isValidOwnerLogin [0xC3,0xA9,char '"',char '\\'] = true ∧
    RoundTrips sampleVerifier [0xC3,0xA9,char '"',char '\\'] (ascii "secret") sampleVerifierText := by
  refine ⟨by decide +kernel,?_⟩
  exact (credentialSource_round_trip_iff sampleVerifier [0xC3,0xA9,char '"',char '\\']
    (ascii "secret") sampleVerifierText (by decide +kernel) rfl (by decide +kernel) (by decide +kernel)
    (by decide +kernel)).mpr ⟨by decide +kernel,by decide +kernel⟩

/-- The byte FF is an accepted login, and the file written for it can never be loaded. -/
theorem credentialSource_unloadable_login :
    isValidOwnerLogin [0xFF] = true ∧ PlainVerifier sampleVerifierText ∧
    sampleVerifier.isUsable sampleVerifierText = true ∧
    (credentialSource [0xFF] sampleVerifierText).length ≤ maximumCredentialFileBytes ∧
    ¬RoundTrips sampleVerifier [0xFF] (ascii "secret") sampleVerifierText := by
  refine ⟨by decide +kernel,by decide +kernel,by decide +kernel,by decide +kernel,?_⟩
  intro h
  have hmalformed : createFromSource (credentialSource [0xFF] sampleVerifierText) sampleVerifier =
      .error .malformedFile := by decide +kernel
  cases hmalformed.symm.trans h.2

end SpareNode.Authentication
