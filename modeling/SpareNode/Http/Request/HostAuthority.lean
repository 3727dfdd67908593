import SpareNode.Foundation.NumericIpAddress
import SpareNode.Http.Ascii

/-! # Host authorities

The validation of a Host value or of the authority of an absolute target: a
bracketed IPv6 literal, a strict IPv4 address or a DNS-style name, each with an
optional decimal port.
-/
namespace SpareNode.Http

def maximumHostnameBytes : ℕ := 253
def maximumHostnameLabelBytes : ℕ := 63
def maximumPort : ℕ := 65535

def isHostnameBoundary (b : Byte) : Bool := isAsciiDigit b || isAsciiLetter b

def isHostnameCharacter (b : Byte) : Bool := isHostnameBoundary b || b == char '-'

/-- `parse_decimal` into a 32-bit value. -/
def parseDecimal (text : Bytes) (maximum : ℕ) : Bool :=
  match fromChars 10 (2 ^ 32 - 1) text with
  | some (value,rest) => rest.isEmpty && decide (value ≤ maximum)
  | none => false

def isValidLabel (label : Bytes) : Bool :=
  !label.isEmpty && decide (label.length ≤ maximumHostnameLabelBytes) &&
    (label.head?.any isHostnameBoundary) && (label.getLast?.any isHostnameBoundary) &&
    label.all isHostnameCharacter

/-- The label loop of `is_valid_hostname`, on the part of the name not yet passed. -/
def validLabels (rest : Bytes) : Bool :=
  if rest = [] then true
  else
    match hdot : find (char '.') rest with
    | none => isValidLabel rest
    | some dot => isValidLabel (rest.take dot) && validLabels (rest.drop (dot + 1))
termination_by rest.length
decreasing_by
  have := find_lt_length hdot
  simp only [List.length_drop]
  omega

def isValidHostname (hostname : Bytes) : Bool :=
  if hostname = [] then false
  else
    let rooted := hostname.getLast? == some (char '.')
    let name := if rooted then hostname.dropLast else hostname
    if rooted && (name.isEmpty || name.getLast? == some (char '.')) then false
    else if maximumHostnameBytes < name.length then false
    else validLabels name

def looksLikeIpv4 (host : Bytes) : Bool :=
  host.contains (char '.') && host.all (fun b => isAsciiDigit b || b == char '.')

def isValidPort (port : Bytes) : Bool := parseDecimal port maximumPort

def isValidIpLiteralAuthority (authority : Bytes) : Bool :=
  match find (char ']') authority with
  | none => false
  | some closing =>
    if closing = 1 ∨ Ip.isValidIpv6Address (substr authority 1 (closing - 1)) = false then false
    else
      match authority.drop (closing + 1) with
      | [] => true
      | b :: port => b == char ':' && isValidPort port

def isValidHostAuthority (authority : Bytes) : Bool :=
  match authority with
  | [] => false
  | first :: _ =>
    if first = char '[' then isValidIpLiteralAuthority authority
    else if authority.contains (char '[') || authority.contains (char ']') then false
    else
      match find (char ':') authority with
      | none =>
        if looksLikeIpv4 authority then Ip.isValidIpv4Address authority
        else isValidHostname authority
      | some colon =>
        let host := authority.take colon
        let port := authority.drop (colon + 1)
        if port.contains (char ':') then false
        else if host.isEmpty || !isValidPort port then false
        else if looksLikeIpv4 host then Ip.isValidIpv4Address host
        else isValidHostname host

example : isValidHostAuthority (ascii "example.com:8080") = true := by decide +kernel
example : isValidHostAuthority (ascii "[::1]:80") = true := by decide +kernel
example : isValidHostAuthority (ascii "256.1.1.1") = false := by decide +kernel

end SpareNode.Http
