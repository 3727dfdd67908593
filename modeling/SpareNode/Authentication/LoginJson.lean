import SpareNode.Authentication.CredentialFile
import SpareNode.Foundation.Utf8Encoding

/-! # The body of a login request

`LoginJsonParser` reads an object with a login and a password. What is left of the input stands for its position
in it. A string is decoded into a buffer that has reserved the rest of the input.
-/
namespace SpareNode.Authentication

def maximumPasswordBytes : ℕ := 4096

/-- A `std::string` with the room that it has reserved. A byte that does not fit in moves the text, which leaves
a copy of it behind. -/
structure ReservedText where
  bytes : Bytes := []
  capacity : ℕ
  abandoned : List Bytes := []
deriving DecidableEq

namespace ReservedText

def pushBack (text : ReservedText) (b : Byte) : ReservedText :=
  if text.bytes.length < text.capacity then { text with bytes := text.bytes ++ [b] }
  else ⟨text.bytes ++ [b],2 * text.capacity + 1,text.abandoned ++ [text.bytes]⟩

def append (text : ReservedText) (s : Bytes) : ReservedText := s.foldl pushBack text

/-- `erase_sensitive_bytes` on the bytes of the text. -/
def erase (text : ReservedText) : ReservedText := { text with bytes := text.bytes.map fun _ => 0 }

def appendCodePoint (output : ReservedText) (codePoint : ℕ) : ReservedText × Bool :=
  if Utf8.isScalarValue codePoint then (output.append (Utf8.encodePoint codePoint),true) else (output,false)

end ReservedText

structure LoginRequest where
  login : Bytes
  password : Bytes
deriving DecidableEq

namespace LoginJsonParser

def consume (expected : Byte) : Bytes → Option Bytes
  | [] => none
  | b :: rest => if b = expected then some rest else none

def isWhitespace (b : Byte) : Bool := b = char ' ' || b = char '\t' || b = char '\r' || b = char '\n'

def skipWhitespace (s : Bytes) : Bytes := s.dropWhile isWhitespace

/-- The loop of `parse_hex_quad`. -/
def parseHexDigits : (count codePoint : ℕ) → Bytes → Option (ℕ × Bytes)
  | 0,codePoint,s => some (codePoint,s)
  | _ + 1,_,[] => none
  | count + 1,codePoint,b :: rest =>
    match digitValue b with
    | none => none
    | some digit => parseHexDigits count (codePoint <<< 4 ||| digit) rest

def parseHexQuad (s : Bytes) : Option (ℕ × Bytes) := if s.length < 4 then none else parseHexDigits 4 0 s

/-- The second half of a surrogate pair, behind its first. -/
def parseLowSurrogate (codePoint : ℕ) (s : Bytes) : Option (ℕ × Bytes) := do
  let rest ← consume (char '\\') s
  let rest ← consume (char 'u') rest
  let (low,rest) ← parseHexQuad rest
  if low < 0xDC00 || 0xDFFF < low then none
  else some (0x10000 + (codePoint - 0xD800) <<< 10 + (low - 0xDC00),rest)

def parseUnicodeEscape (s : Bytes) : Option (ℕ × Bytes) :=
  match parseHexQuad s with
  | none => none
  | some (codePoint,rest) =>
    if 0xD800 ≤ codePoint ∧ codePoint ≤ 0xDBFF then parseLowSurrogate codePoint rest
    else if 0xDC00 ≤ codePoint ∧ codePoint ≤ 0xDFFF then none
    else some (codePoint,rest)

def simpleEscapes : List (Byte × Byte) :=
  [(char '"',char '"'),(char '\\',char '\\'),(char '/',char '/'),(char 'b',8),(char 'f',12),(char 'n',10),
    (char 'r',13),(char 't',9)]

/-- `append_escape`: the output and what is left of the input, unless the escape is rejected. -/
def appendEscape (output : ReservedText) : Bytes → ReservedText × Option Bytes
  | [] => (output,none)
  | escaped :: rest =>
    match simpleEscapes.find? (fun mapping => mapping.1 = escaped) with
    | some mapping => (output.pushBack mapping.2,some rest)
    | none =>
      if escaped ≠ char 'u' then (output,none)
      else
        match parseUnicodeEscape rest with
        | none => (output,none)
        | some (codePoint,rest) =>
          match output.appendCodePoint codePoint with
          | (output,true) => (output,some rest)
          | (output,false) => (output,none)

theorem consume_eq_some {expected : Byte} {s rest : Bytes} : consume expected s = some rest ↔ s = expected :: rest := by
  cases s with
  | nil => simp [consume]
  | cons b s =>
    rw [consume]
    split
    · rename_i hb
      rw [hb,Option.some.injEq,List.cons.injEq]
      exact (and_iff_right rfl).symm
    · rename_i hb
      simp [hb]

theorem parseHexDigits_length {count codePoint value : ℕ} {s rest : Bytes}
    (h : parseHexDigits count codePoint s = some (value,rest)) : rest.length + count = s.length := by
  induction count generalizing codePoint s with
  | zero =>
    obtain ⟨-,rfl⟩ := Prod.mk.inj (Option.some.inj h)
    rfl
  | succ count ih =>
    cases s with
    | nil => cases h
    | cons b s =>
      rw [parseHexDigits] at h
      split at h
      · cases h
      · rw [List.length_cons,← ih h]
        omega

theorem parseHexQuad_length {s rest : Bytes} {value : ℕ} (h : parseHexQuad s = some (value,rest)) :
    rest.length + 4 = s.length := by
  unfold parseHexQuad at h
  split at h
  · cases h
  · exact parseHexDigits_length h

theorem parseUnicodeEscape_length {s rest : Bytes} {value : ℕ} (h : parseUnicodeEscape s = some (value,rest)) :
    rest.length + 4 ≤ s.length := by
  unfold parseUnicodeEscape at h
  split at h
  · cases h
  · rename_i codePoint middle hquad
    have hlength := parseHexQuad_length hquad
    split at h
    · simp only [parseLowSurrogate,Option.bind_eq_bind,Option.bind_eq_some_iff,Prod.exists] at h
      obtain ⟨s₁,hbackslash,s₂,hletter,low,s₃,hlow,h⟩ := h
      split at h
      · cases h
      · obtain ⟨-,rfl⟩ := Prod.mk.inj (Option.some.inj h)
        have hlength' := parseHexQuad_length hlow
        rw [consume_eq_some.mp hbackslash,consume_eq_some.mp hletter,List.length_cons,List.length_cons] at hlength
        omega
    · split at h
      · cases h
      · obtain ⟨-,rfl⟩ := Prod.mk.inj (Option.some.inj h)
        omega

theorem appendEscape_length {output output' : ReservedText} {s rest : Bytes}
    (h : appendEscape output s = (output',some rest)) : rest.length + 1 ≤ s.length := by
  cases s with
  | nil => cases h
  | cons escaped s =>
    rw [appendEscape] at h
    split at h
    · obtain ⟨-,hrest⟩ := Prod.mk.inj h
      obtain rfl := Option.some.inj hrest
      rfl
    · split at h
      · cases h
      · split at h
        · cases h
        · rename_i codePoint middle hescape
          have hlength := parseUnicodeEscape_length hescape
          split at h
          · obtain ⟨-,hrest⟩ := Prod.mk.inj h
            obtain rfl := Option.some.inj hrest
            rw [List.length_cons]
            omega
          · cases h

/-- The loop of `parse_string`: the output and what is left of the input, unless the string is rejected. -/
def parseStringLoop (output : ReservedText) : Bytes → ReservedText × Option Bytes
  | [] => (output.erase,none)
  | b :: rest =>
    if b = char '"' then (output,some rest)
    else if b < 0x20 then (output.erase,none)
    else if b ≠ char '\\' then parseStringLoop (output.pushBack b) rest
    else
      match _h : appendEscape output rest with
      | (output,none) => (output.erase,none)
      | (output,some rest) => parseStringLoop output rest
termination_by s => s.length
decreasing_by
  · simp
  · have := appendEscape_length _h
    simp only [List.length_cons]
    omega

def parseString (s : Bytes) : ReservedText × Option Bytes :=
  match consume (char '"') s with
  | none => ({ capacity := 0 },none)
  | some rest => parseStringLoop { capacity := rest.length } rest

/-- The value of a string and what is left behind it. -/
def readString (s : Bytes) : Option (Bytes × Bytes) :=
  match parseString s with
  | (_,none) => none
  | (output,some rest) => some (output.bytes,rest)

/-- The two optionals of `parse`. -/
structure Members where
  login : Option Bytes := none
  password : Option Bytes := none
deriving DecidableEq

/-- The part of `parse_member` that keeps a value under its name. -/
def store (members : Members) (name value : Bytes) : Option Members :=
  if value.isEmpty then none
  else if name = ascii "login" && members.login.isNone && decide (value.length ≤ maximumOwnerLoginBytes) then
    some { members with login := some value }
  else if name ≠ ascii "password" then none
  else if members.password.isNone && decide (value.length ≤ maximumPasswordBytes) then
    some { members with password := some value }
  else none

def parseMember (members : Members) (s : Bytes) : Option (Members × Bytes) := do
  let (name,rest) ← readString s
  let rest ← consume (char ':') (skipWhitespace rest)
  let (value,rest) ← readString (skipWhitespace rest)
  let members ← store members name value
  some (members,rest)

theorem skipWhitespace_length (s : Bytes) : (skipWhitespace s).length ≤ s.length :=
  (List.dropWhile_suffix _).length_le

theorem consume_length {expected : Byte} {s rest : Bytes} (h : consume expected s = some rest) :
    rest.length + 1 = s.length := by
  rw [consume_eq_some.mp h]
  rfl

theorem parseStringLoop_length {output output' : ReservedText} {s rest : Bytes}
    (h : parseStringLoop output s = (output',some rest)) : rest.length + 1 ≤ s.length := by
  fun_induction parseStringLoop output s with
  | case1 => cases h
  | case2 output s =>
    obtain ⟨-,hrest⟩ := Prod.mk.inj h
    obtain rfl := Option.some.inj hrest
    rfl
  | case3 => cases h
  | case4 output b s _ _ _ ih =>
    have := ih h
    rw [List.length_cons]
    omega
  | case5 => cases h
  | case6 output b s _ _ _ middle after hescape ih =>
    have hlength := appendEscape_length hescape
    have := ih h
    rw [List.length_cons]
    omega

theorem readString_length {s value rest : Bytes} (h : readString s = some (value,rest)) :
    rest.length + 2 ≤ s.length := by
  unfold readString parseString at h
  cases hquote : consume (char '"') s with
  | none =>
    rw [hquote] at h
    cases h
  | some body =>
    rw [hquote] at h
    split at h
    · cases h
    · rename_i output rest' hloop
      obtain ⟨-,rfl⟩ := Prod.mk.inj (Option.some.inj h)
      have := consume_length hquote
      have := parseStringLoop_length hloop
      omega

theorem parseMember_length {members members' : Members} {s rest : Bytes}
    (h : parseMember members s = some (members',rest)) : rest.length < s.length := by
  simp only [parseMember,Option.bind_eq_bind,Option.bind_eq_some_iff,Prod.exists,Option.some.injEq,Prod.mk.injEq] at h
  obtain ⟨name,s₁,hname,s₂,hcolon,value,s₃,hvalue,stored,-,-,rfl⟩ := h
  have hfirst := readString_length hname
  have hskip := skipWhitespace_length s₁
  have hconsumed := consume_length hcolon
  have hsecond := readString_length hvalue
  have hskip' := skipWhitespace_length s₂
  omega

/-- The loop of `parse`. -/
def parseMembers (members : Members) (s : Bytes) : Option (Members × Bytes) :=
  match _h : parseMember members s with
  | none => none
  | some (members,rest) =>
    match consume (char '}') (skipWhitespace rest) with
    | some rest => some (members,rest)
    | none =>
      match _hcomma : consume (char ',') (skipWhitespace rest) with
      | none => none
      | some next => parseMembers members (skipWhitespace next)
termination_by s.length
decreasing_by
  have := parseMember_length _h
  have := consume_length _hcomma
  have hskip := skipWhitespace_length
  have := hskip rest
  have := hskip next
  omega

def parse (input : Bytes) : Option LoginRequest :=
  if !Utf8.isValid input then none
  else
    match consume (char '{') (skipWhitespace input) with
    | none => none
    | some rest =>
      if (consume (char '}') (skipWhitespace rest)).isSome then none
      else
        match parseMembers {} (skipWhitespace rest) with
        | none => none
        | some (members,rest) =>
          if skipWhitespace rest ≠ [] then none
          else
            match members.login,members.password with
            | some login,some password => some ⟨login,password⟩
            | _,_ => none

end LoginJsonParser
end SpareNode.Authentication
