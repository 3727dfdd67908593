import SpareNode.Foundation.NumericIpAddress

/-! # The grammar of numeric addresses

RFC 3986 `IPv4address` and `IPv6address`, each text with the octets or the sixteen-bit groups
that it stands for. An address is a number of 32 or of 128 bits; its network order is that number
written in base 256, most significant byte first.
-/
namespace SpareNode.Ip

def digitByte (value : ℕ) : Byte := UInt8.ofNat (48 + value)

/-- `dec-octet`, alternative by alternative. -/
inductive DecOctet : Bytes → ℕ → Prop
  | digit {a : ℕ} (ha : a ≤ 9) : DecOctet [digitByte a] a
  | twoDigits {a b : ℕ} (ha : 1 ≤ a) (ha' : a ≤ 9) (hb : b ≤ 9) :
      DecOctet [digitByte a,digitByte b] (a * 10 + b)
  | oneHundred {a b : ℕ} (ha : a ≤ 9) (hb : b ≤ 9) :
      DecOctet [char '1',digitByte a,digitByte b] (100 + a * 10 + b)
  | twoHundred {a b : ℕ} (ha : a ≤ 4) (hb : b ≤ 9) :
      DecOctet [char '2',digitByte a,digitByte b] (200 + a * 10 + b)
  | twoFifty {b : ℕ} (hb : b ≤ 5) : DecOctet [char '2',char '5',digitByte b] (250 + b)

inductive DottedOctets : Bytes → List ℕ → Prop
  | last {s : Bytes} {octet : ℕ} (h : DecOctet s octet) : DottedOctets s [octet]
  | cons {s t : Bytes} {octet : ℕ} {octets : List ℕ} (h : DecOctet s octet) (ht : DottedOctets t octets) :
      DottedOctets (s ++ char '.' :: t) (octet :: octets)

/-- `IPv4address`. -/
def Ipv4Text (s : Bytes) (octets : List ℕ) : Prop := DottedOctets s octets ∧ octets.length = 4

/-- `h16`: one to four hexadecimal digits. -/
structure H16 (s : Bytes) (word : ℕ) : Prop where
  nonempty : s ≠ []
  short : s.length ≤ 4
  digits : s.all (isDigit 16) = true
  value : word = numeral 16 s

/-- Groups separated by single colons; where a tail is allowed, the last two may be written as an
IPv4 address. -/
inductive Ipv6Groups (tail : Bool) : Bytes → List ℕ → Prop
  | last {s : Bytes} {word : ℕ} (h : H16 s word) : Ipv6Groups tail s [word]
  | ipv4 {s : Bytes} {a b c d : ℕ} (htail : tail = true) (h : Ipv4Text s [a,b,c,d]) :
      Ipv6Groups tail s [a * 256 + b,c * 256 + d]
  | cons {s t : Bytes} {word : ℕ} {words : List ℕ} (h : H16 s word) (ht : Ipv6Groups tail t words) :
      Ipv6Groups tail (s ++ char ':' :: t) (word :: words)

/-- One side of the compression marker; it may be empty. -/
inductive Ipv6Side (tail : Bool) : Bytes → List ℕ → Prop
  | empty : Ipv6Side tail [] []
  | groups {s : Bytes} {words : List ℕ} (h : Ipv6Groups tail s words) : Ipv6Side tail s words

/-- `IPv6address`: eight groups, or a marker that stands for the one or more missing ones. -/
inductive Ipv6Text : Bytes → List ℕ → Prop
  | full {s : Bytes} {words : List ℕ} (h : Ipv6Groups true s words) (hcount : words.length = 8) :
      Ipv6Text s words
  | compressed {left right : Bytes} {before after : List ℕ} {zeros : ℕ} (hleft : Ipv6Side false left before)
      (hright : Ipv6Side true right after) (hzeros : 1 ≤ zeros)
      (hcount : before.length + zeros + after.length = 8) :
      Ipv6Text (left ++ char ':' :: char ':' :: right) (before ++ List.replicate zeros 0 ++ after)

/-- An address of one of the two families, as a number. -/
inductive IpAddress where
  | v4 (value : Fin (2 ^ 32))
  | v6 (value : Fin (2 ^ 128))
deriving DecidableEq

def bigEndian (base : ℕ) (digits : List ℕ) : ℕ := digits.foldl (fun value digit => value * base + digit) 0

inductive Denotes : Bytes → IpAddress → Prop
  | v4 {s : Bytes} {octets : List ℕ} {value : Fin (2 ^ 32)} (h : Ipv4Text s octets)
      (hvalue : value.val = bigEndian (2 ^ 8) octets) : Denotes s (.v4 value)
  | v6 {s : Bytes} {words : List ℕ} {value : Fin (2 ^ 128)} (h : Ipv6Text s words)
      (hvalue : value.val = bigEndian (2 ^ 16) words) : Denotes s (.v6 value)

/-- The last bytes of a number, most significant first. -/
def networkBytes : (width value : ℕ) → List ℕ
  | 0,_ => []
  | width + 1,value => networkBytes width (value / 256) ++ [value % 256]

/-- Sixteen bytes in network order; an IPv4 address uses the first four. -/
def IpAddress.network : IpAddress → NumericAddress
  | .v4 value => ⟨networkBytes 4 value.val ++ List.replicate 12 0,true⟩
  | .v6 value => ⟨networkBytes 16 value.val,false⟩

section Digits
variable {base : ℕ} {digits : List ℕ} {digit : ℕ}

@[simp] theorem bigEndian_nil : bigEndian base [] = 0 := rfl

@[simp] theorem bigEndian_concat : bigEndian base (digits ++ [digit]) = bigEndian base digits * base + digit := by
  simp [bigEndian]

theorem bigEndian_lt (hdigits : ∀ digit ∈ digits, digit < base) : bigEndian base digits < base ^ digits.length := by
  induction digits using List.reverseRecOn with
  | nil => simp
  | append_singleton digits digit ih =>
    have hlast := hdigits digit (by simp)
    have hfront := ih (fun d hd => hdigits d (by simp [hd]))
    rw [bigEndian_concat,List.length_append,List.length_singleton,pow_succ]
    calc bigEndian base digits * base + digit < bigEndian base digits * base + base := by omega
      _ = (bigEndian base digits + 1) * base := by ring
      _ ≤ base ^ digits.length * base := Nat.mul_le_mul_right base hfront

theorem networkBytes_length (width value : ℕ) : (networkBytes width value).length = width := by
  induction width generalizing value with
  | zero => rfl
  | succ width ih => simp [networkBytes,ih]

/-- Octets are the network order of the number they denote. -/
theorem networkBytes_bigEndian (hdigits : ∀ digit ∈ digits, digit < 256) :
    networkBytes digits.length (bigEndian (2 ^ 8) digits) = digits := by
  induction digits using List.reverseRecOn with
  | nil => rfl
  | append_singleton digits digit ih =>
    have hlast := hdigits digit (by simp)
    have hdiv : (bigEndian (2 ^ 8) digits * 2 ^ 8 + digit) / 256 = bigEndian (2 ^ 8) digits := by omega
    have hmod : (bigEndian (2 ^ 8) digits * 2 ^ 8 + digit) % 256 = digit := by omega
    rw [List.length_append,List.length_singleton,networkBytes,bigEndian_concat,hdiv,hmod,
      ih (fun d hd => hdigits d (by simp [hd]))]

/-- Groups are stored as the network order of the number they denote. -/
theorem storeWords_bigEndian (hdigits : ∀ word ∈ digits, word < 2 ^ 16) :
    networkBytes (2 * digits.length) (bigEndian (2 ^ 16) digits) = storeWords digits := by
  induction digits using List.reverseRecOn with
  | nil => rfl
  | append_singleton digits word ih =>
    have hlast := hdigits word (by simp)
    have hdiv : (bigEndian (2 ^ 16) digits * 2 ^ 16 + word) / 256 / 256 = bigEndian (2 ^ 16) digits := by omega
    have hhigh : (bigEndian (2 ^ 16) digits * 2 ^ 16 + word) / 256 % 256 = word / 256 := by omega
    have hlow : (bigEndian (2 ^ 16) digits * 2 ^ 16 + word) % 256 = word % 256 := by omega
    have hcount : 2 * (digits ++ [word]).length = 2 * digits.length + 1 + 1 := by simp; omega
    rw [hcount,networkBytes,networkBytes,bigEndian_concat,hdiv,hhigh,hlow,
      ih (fun d hd => hdigits d (by simp [hd]))]
    simp [storeWords]

/-- A number of so many bytes is determined by its network order. -/
theorem networkBytes_injective {width value value' : ℕ} (h : value < 256 ^ width) (h' : value' < 256 ^ width)
    (hbytes : networkBytes width value = networkBytes width value') : value = value' := by
  induction width generalizing value value' with
  | zero =>
    rw [pow_zero] at h h'
    omega
  | succ width ih =>
    obtain ⟨hfront,hlast⟩ := List.append_inj' hbytes rfl
    rw [pow_succ] at h h'
    have hdiv := ih (by omega) (by omega) hfront
    have hmod : value % 256 = value' % 256 := by simpa using hlast
    omega

end Digits

theorem network_injective {address address' : IpAddress} (h : address.network = address'.network) :
    address = address' := by
  cases address with
  | v4 value =>
    cases address' with
    | v4 value' =>
      have hbytes : networkBytes 4 value.val = networkBytes 4 value'.val := by
        simpa [IpAddress.network] using h
      exact congrArg IpAddress.v4 (Fin.ext (networkBytes_injective value.isLt value'.isLt hbytes))
    | v6 value' => cases congrArg NumericAddress.ipv4 h
  | v6 value =>
    cases address' with
    | v4 value' => cases congrArg NumericAddress.ipv4 h
    | v6 value' =>
      have hbytes : networkBytes 16 value.val = networkBytes 16 value'.val := by
        simpa [IpAddress.network] using h
      exact congrArg IpAddress.v6 (Fin.ext (networkBytes_injective value.isLt value'.isLt hbytes))

end SpareNode.Ip
