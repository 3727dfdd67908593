import SpareNode.Configuration.ConfigParser
import SpareNode.Configuration.TokenReading

/-! # The grammar of configurations

A configuration is a list of server items; its symbols are written one after another with trivia between
them. What `parse` returns keeps the directives and the locations apart, each in the order of the text.
-/
namespace SpareNode.Configuration
open Utf8

inductive Symbol where
  | word (name : Bytes)
  | string (value : Bytes)
  | integer (value : UInt64)
  | boolean (value : Bool)
  | leftBrace | rightBrace | semicolon
deriving DecidableEq

/-- The ways to write a symbol: integers may have leading zeroes, strings may be escaped. -/
inductive Prints : Symbol → Bytes → Prop
  | word {name : Bytes} (h : Lexeme .identifier name none) : Prints (.word name) name
  | string {raw value : Bytes} (h : Spells raw value) : Prints (.string value) (char '"' :: (raw ++ [char '"']))
  | integer {digits : Bytes} {value : UInt64} (hne : digits ≠ []) (hdigits : digits.all isDecimalDigit = true)
      (hvalue : numeral 10 digits = value.toNat) : Prints (.integer value) digits
  | boolean {value : Bool} : Prints (.boolean value) (if value then ascii "true" else ascii "false")
  | leftBrace : Prints .leftBrace [0x7B]
  | rightBrace : Prints .rightBrace [0x7D]
  | semicolon : Prints .semicolon [char ';']

/-- Written without trivia between them, the two symbols would be one token. -/
def Symbol.runsInto : Symbol → Symbol → Bool
  | .word _,.word _ | .word _,.integer _ | .word _,.boolean _ => true
  | .boolean _,.word _ | .boolean _,.integer _ | .boolean _,.boolean _ => true
  | .integer _,.integer _ => true
  | _,_ => false

/-- The text of symbols that stand behind `previous`, up to the end of the input. -/
inductive Written : Option Symbol → List Symbol → Bytes → Prop
  | finish {previous : Option Symbol} {w : Bytes} (hw : Trivia true w) : Written previous [] w
  | symbol {previous : Option Symbol} {s : Symbol} {symbols : List Symbol} {w x rest : Bytes} (hw : Trivia false w)
      (hx : Prints s x) (hsep : ∀ q ∈ previous, q.runsInto s = true → w ≠ []) (h : Written (some s) symbols rest) :
      Written previous (s :: symbols) (w ++ x ++ rest)

structure ServerDirective where
  kind : ServerDirectiveKind
  scalar : ParsedConfigScalar
  typed : scalar.expectation = kind.expectation
deriving DecidableEq

structure LocationDirective where
  kind : LocationDirectiveKind
  scalar : ParsedConfigScalar
  typed : scalar.expectation = kind.expectation
deriving DecidableEq

structure LocationBlock where
  apiPath : Bytes
  directives : List LocationDirective
deriving DecidableEq

inductive ServerItem where
  | directive (d : ServerDirective)
  | location (b : LocationBlock)

def ServerDirectiveKind.name : ServerDirectiveKind → Bytes
  | .bind => ascii "bind"
  | .port => ascii "port"
  | .multithreading => ascii "multithreading"
  | .workerThreads => ascii "worker_threads"
  | .logLevel => ascii "log_level"
  | .mimeTypesFile => ascii "mime_types_file"
  | .credentialsFile => ascii "credentials_file"
  | .headerTimeoutMs => ascii "header_timeout_ms"
  | .bodyTimeoutMs => ascii "body_timeout_ms"
  | .requestTimeoutMs => ascii "request_timeout_ms"
  | .responseTimeoutMs => ascii "response_timeout_ms"
  | .transportMode => ascii "transport_mode"
  | .trustedProxy => ascii "trusted_proxy"

def LocationDirectiveKind.name : LocationDirectiveKind → Bytes
  | .path => ascii "path"
  | .readPermission => ascii "read"
  | .writePermission => ascii "write"
  | .deletePermission => ascii "delete"

def ParsedConfigScalar.symbol : ParsedConfigScalar → Symbol
  | .string value => .string value
  | .integer value => .integer value
  | .boolean value => .boolean value

def ServerDirective.symbols (d : ServerDirective) : List Symbol := [.word d.kind.name,d.scalar.symbol,.semicolon]

def LocationDirective.symbols (d : LocationDirective) : List Symbol := [.word d.kind.name,d.scalar.symbol,.semicolon]

def LocationBlock.symbols (b : LocationBlock) : List Symbol :=
  [.word (ascii "location"),.string b.apiPath,.leftBrace] ++ b.directives.flatMap LocationDirective.symbols ++
    [.rightBrace]

def ServerItem.symbols : ServerItem → List Symbol
  | .directive d => d.symbols
  | .location b => b.symbols

def configurationSymbols (items : List ServerItem) : List Symbol :=
  [.word (ascii "server"),.leftBrace] ++ items.flatMap ServerItem.symbols ++ [.rightBrace]

/-- `text` writes the items as one server block, with an optional byte-order mark before it. -/
def Renders (items : List ServerItem) (text : Bytes) : Prop :=
  ∃ mark body, (mark = [] ∨ mark = utf8ByteOrderMark) ∧ text = mark ++ body ∧
    Written none (configurationSymbols items) body

/-- A text that some literal spells: UTF-8 without NUL and U+FEFF. -/
def WritableText (s : Bytes) : Prop :=
  ∃ scalars : List Scalar, s = encodeAll scalars ∧ ∀ v ∈ scalars, v.val ≠ 0 ∧ v.val ≠ 0xFEFF

def ParsedConfigScalar.Writable : ParsedConfigScalar → Prop
  | .string value => WritableText value
  | _ => True

def ServerItem.Writable : ServerItem → Prop
  | .directive d => d.scalar.Writable
  | .location b => WritableText b.apiPath ∧ ∀ d ∈ b.directives, d.scalar.Writable

def ServerItem.directive? : ServerItem → Option ServerDirective
  | .directive d => some d
  | .location _ => none

def ServerItem.location? : ServerItem → Option LocationBlock
  | .directive _ => none
  | .location b => some b

def ParsedServerDirective.erased (d : ParsedServerDirective) : ServerDirective := ⟨d.kind,d.value.scalar,d.typed⟩

def ParsedLocationDirective.erased (d : ParsedLocationDirective) : LocationDirective := ⟨d.kind,d.value.scalar,d.typed⟩

def ParsedLocationBlock.erased (b : ParsedLocationBlock) : LocationBlock :=
  ⟨b.apiPath,b.directives.map ParsedLocationDirective.erased⟩

/-- The configuration has the directives and the locations of the items, each in their order. -/
def ParsedConfiguration.Holds (configuration : ParsedConfiguration) (items : List ServerItem) : Prop :=
  configuration.server.directives.map ParsedServerDirective.erased = items.filterMap ServerItem.directive? ∧
  configuration.server.locations.map ParsedLocationBlock.erased = items.filterMap ServerItem.location?

theorem serverDirectiveKind_iff {name : Bytes} {kind : ServerDirectiveKind} :
    serverDirectiveKind name = some kind ↔ name = kind.name := by
  constructor
  · intro h
    obtain ⟨⟨mapping,kind'⟩,hfind,rfl⟩ := Option.map_eq_some_iff.mp h
    have hname : name = mapping := by simpa using List.find?_some hfind
    have hall : ∀ entry ∈ serverDirectiveNames, entry.1 = entry.2.name := by decide
    rw [hname]
    exact hall _ (List.mem_of_find?_eq_some hfind)
  · rintro rfl
    cases kind <;> decide

theorem locationDirectiveKind_iff {name : Bytes} {kind : LocationDirectiveKind} :
    locationDirectiveKind name = some kind ↔ name = kind.name := by
  constructor
  · intro h
    unfold locationDirectiveKind at h
    repeat' split at h
    all_goals cases h
    all_goals assumption
  · rintro rfl
    cases kind <;> decide

end SpareNode.Configuration
