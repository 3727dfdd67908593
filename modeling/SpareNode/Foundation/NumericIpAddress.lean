import SpareNode.Foundation.Bytes

/-! # Numeric IP addresses

Strict dotted-decimal IPv4 and RFC-compatible IPv6 text. The source walks a fixed
view by offsets; here each loop carries the part of the view it has not passed.
-/
namespace SpareNode.Ip

/-- One octet: one to three digits, no leading zero, at most 255. -/
def parseOctet (component : Bytes) : Option ℕ :=
  if component = [] ∨ 3 < component.length ∨
      (1 < component.length ∧ component.head? = some (char '0')) then none
  else if component.all (fun b => char '0' ≤ b && b ≤ char '9') then
    if 255 < numeral 10 component then none else some (numeral 10 component)
  else none

/-- The remaining octets of `parse_ipv4`; only the last one may end the text. -/
def parseOctets : ℕ → Bytes → Option (List ℕ)
  | 0, _ => some []
  | n + 1, rest =>
    match find (char '.') rest with
    | none =>
      match parseOctet rest with
      | none => none
      | some octet => if n = 0 then some [octet] else none
    | some stop =>
      match parseOctet (rest.take stop) with
      | none => none
      | some octet =>
        if n = 0 then none else (parseOctets n (rest.drop (stop + 1))).map (octet :: ·)

/-- `parse_ipv4`: exactly four canonical dotted-decimal octets. -/
def parseIpv4 (value : Bytes) : Option (List ℕ) := parseOctets 4 value

/-- `parse_ipv6_word`. Shifting in one nibble keeps the low sixteen bits. -/
def parseIpv6Word (value : Bytes) : Option ℕ :=
  if value = [] ∨ 4 < value.length then none
  else value.foldlM (fun word digit =>
    (digitValue digit).map (fun nibble => (word * 16 + nibble) % 2 ^ 16)) 0

/-- `words.size()` of the fixed arrays that hold IPv6 words. -/
def ipv6WordCount : ℕ := 8

/-- `append_ipv6_words`: words from one side of an optional compression marker.
The list stands for the used part of the word array. -/
def appendIpv6WordsLoop (allowIpv4Tail : Bool) (words : List ℕ) (rest : Bytes) :
    Option (List ℕ) :=
  match _hend : find (char ':') rest with
  | none =>
    if rest.contains (char '.') then
      if allowIpv4Tail then
        match parseIpv4 rest with
        | some [a,b,c,d] =>
          if ipv6WordCount - 2 < words.length then none
          else some (words ++ [a * 256 + b,c * 256 + d])
        | _ => none
      else none
    else
      match parseIpv6Word rest with
      | none => none
      | some word => if words.length = ipv6WordCount then none else some (words ++ [word])
  | some stop =>
    -- a dotted component before another colon is never an IPv4 tail
    if (rest.take stop).contains (char '.') then none
    else
      match parseIpv6Word (rest.take stop) with
      | none => none
      | some word =>
        if words.length = ipv6WordCount then none
        else appendIpv6WordsLoop allowIpv4Tail (words ++ [word]) (rest.drop (stop + 1))
termination_by rest.length
decreasing_by
  have := find_lt_length _hend
  simp only [List.length_drop]
  omega

def appendIpv6Words (sequence : Bytes) (words : List ℕ) (allowIpv4Tail : Bool) :
    Option (List ℕ) :=
  if sequence = [] then some words else appendIpv6WordsLoop allowIpv4Tail words sequence

/-- `std::string_view::find` of a two-byte marker. -/
def findPair (a b : Byte) : Bytes → Option ℕ
  | x :: y :: rest =>
    if x = a ∧ y = b then some 0 else (findPair a b (y :: rest)).map (· + 1)
  | _ => none

theorem findPair_split {a b : Byte} {s : Bytes} {i : ℕ} (h : findPair a b s = some i) :
    s = s.take i ++ a :: b :: s.drop (i + 2) := by
  fun_induction findPair a b s generalizing i with
  | case1 x y rest hpair =>
    obtain rfl := Option.some.inj h
    rw [hpair.1,hpair.2]
    rfl
  | case2 x y rest hpair ih =>
    obtain ⟨j,hj,rfl⟩ := Option.map_eq_some_iff.mp h
    rw [List.take_succ_cons,List.cons_append,show j + 1 + 2 = (j + 2) + 1 by omega,List.drop_succ_cons,
      ← ih hj]
  | case3 => cases h

structure NumericAddress where
  bytes : List ℕ
  ipv4 : Bool
  deriving DecidableEq, Repr

def storeWords (words : List ℕ) : List ℕ := words.flatMap (fun word => [word / 256,word % 256])

def parseNumericAddress (value : Bytes) : Option NumericAddress :=
  match parseIpv4 value with
  | some octets => some ⟨octets ++ List.replicate 12 0,true⟩
  | none =>
    match findPair (char ':') (char ':') value with
    | none =>
      match appendIpv6Words value [] true with
      | some left => if left.length = ipv6WordCount then some ⟨storeWords left,false⟩ else none
      | none => none
    | some compression =>
      if (findPair (char ':') (char ':') (value.drop (compression + 2))).isSome then none
      else
        match appendIpv6Words (value.take compression) [] false,
            appendIpv6Words (value.drop (compression + 2)) [] true with
        | some left, some right =>
          if ipv6WordCount ≤ left.length + right.length then none
          else some ⟨storeWords (left ++
            List.replicate (ipv6WordCount - right.length - left.length) 0 ++ right),false⟩
        | _, _ => none

def isValidIpv4Address (value : Bytes) : Bool := (parseIpv4 value).isSome

def isValidIpv6Address (value : Bytes) : Bool :=
  match parseNumericAddress value with
  | some address => !address.ipv4
  | none => false

example : parseNumericAddress (ascii "127.0.0.1") =
    some ⟨[127,0,0,1,0,0,0,0,0,0,0,0,0,0,0,0],true⟩ := by decide
example : parseNumericAddress (ascii "::ffff:1.2.3.4") =
    some ⟨[0,0,0,0,0,0,0,0,0,0,255,255,1,2,3,4],false⟩ := by decide +kernel

end SpareNode.Ip
