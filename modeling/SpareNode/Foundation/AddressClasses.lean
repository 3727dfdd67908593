import SpareNode.Foundation.AddressAcceptance

/-! # Loopback and wildcard addresses

Both classes are decided on the bytes in network order. As numbers, they are 127.0.0.0/8 and ::1, and
0.0.0.0, :: and the mapped form of 0.0.0.0.
-/
namespace SpareNode.Ip

def isIpv4MappedAddress (address : NumericAddress) : Bool :=
  !address.ipv4 && (address.bytes.take 10).all (· = 0) && address.bytes[10]? == some 255 &&
    address.bytes[11]? == some 255

def isLoopbackAddress (address : NumericAddress) : Bool :=
  if address.ipv4 then address.bytes.head? == some 127
  else address.bytes.dropLast.all (· = 0) && address.bytes.getLast? == some 1

def isUnspecifiedAddress (address : NumericAddress) : Bool :=
  let mapped := isIpv4MappedAddress address
  let bytes := if mapped then address.bytes.drop 12 else address.bytes
  (bytes.take (if address.ipv4 || mapped then 4 else address.bytes.length)).all (· = 0)

def IpAddress.Loopback : IpAddress → Prop
  | .v4 value => value.val / 2 ^ 24 = 127
  | .v6 value => value.val = 1

def IpAddress.Wildcard : IpAddress → Prop
  | .v4 value => value.val = 0
  | .v6 value => value.val = 0 ∨ value.val = 0xFFFF * 2 ^ 32

theorem all_zero_iff {bytes : List ℕ} : bytes.all (· = 0) = true ↔ bytes = List.replicate bytes.length 0 := by
  rw [List.eq_replicate_iff]
  simp

theorem isLoopbackAddress_iff (address : IpAddress) : isLoopbackAddress address.network = true ↔ address.Loopback := by
  cases address with
  | v4 value =>
    have hhead : (networkBytes 4 value.val ++ List.replicate 12 0).head? =
        some (value.val / 256 / 256 / 256 % 256) := rfl
    have hlt := value.isLt
    simp only [isLoopbackAddress,IpAddress.network,if_true,beq_iff_eq,hhead,Option.some.injEq,IpAddress.Loopback]
    omega
  | v6 value =>
    have hone : networkBytes 16 1 = List.replicate 15 0 ++ [1] := rfl
    have hlength := networkBytes_length 16 value.val
    have hvalue : value.val = 1 ↔ networkBytes 16 value.val = List.replicate 15 0 ++ [1] := by
      rw [← hone]
      exact ⟨fun h => by rw [h],networkBytes_injective value.isLt (by decide)⟩
    simp only [isLoopbackAddress,IpAddress.network,Bool.false_eq_true,if_false,Bool.and_eq_true,beq_iff_eq,
      IpAddress.Loopback,hvalue]
    generalize networkBytes 16 value.val = bytes at hlength
    constructor
    · rintro ⟨hzeros,hlast⟩
      have hsplit := List.dropLast_append_getLast? 1 hlast
      rw [all_zero_iff,List.length_dropLast,hlength] at hzeros
      rw [← hsplit,hzeros]
    · rintro rfl
      exact ⟨by decide,by decide⟩

theorem isIpv4MappedAddress_iff {bytes : List ℕ} (hlength : bytes.length = 16) :
    isIpv4MappedAddress ⟨bytes,false⟩ = true ↔ ∃ tail, bytes = List.replicate 10 0 ++ [255,255] ++ tail := by
  simp only [isIpv4MappedAddress,Bool.not_false,Bool.true_and,Bool.and_eq_true,beq_iff_eq]
  constructor
  · rintro ⟨⟨hzeros,hfirst⟩,hsecond⟩
    rw [all_zero_iff,List.length_take,hlength] at hzeros
    refine ⟨bytes.drop 12,?_⟩
    have hten : bytes.drop 10 = 255 :: 255 :: bytes.drop 12 := by
      rw [List.drop_eq_getElem_cons (by omega),List.drop_eq_getElem_cons (by omega)]
      rw [List.getElem?_eq_getElem (by omega),Option.some.injEq] at hfirst hsecond
      rw [hfirst,hsecond]
    conv_lhs => rw [← List.take_append_drop 10 bytes,hzeros,hten]
    simp
  · rintro ⟨tail,rfl⟩
    refine ⟨⟨?_,?_⟩,?_⟩ <;> rfl

theorem isUnspecifiedAddress_ipv4 (bytes : List ℕ) :
    isUnspecifiedAddress ⟨bytes,true⟩ = (bytes.take 4).all (· = 0) := by
  simp [isUnspecifiedAddress,isIpv4MappedAddress]

theorem isUnspecifiedAddress_ipv6 (bytes : List ℕ) : isUnspecifiedAddress ⟨bytes,false⟩ =
    if isIpv4MappedAddress ⟨bytes,false⟩ then ((bytes.drop 12).take 4).all (· = 0) else bytes.all (· = 0) := by
  cases hmapped : isIpv4MappedAddress ⟨bytes,false⟩ <;> simp [isUnspecifiedAddress,hmapped]

/-- Sixteen bytes are the wildcard when all are zero, or all but the mark of a mapped address. -/
theorem isUnspecifiedAddress_bytes {bytes : List ℕ} (hlength : bytes.length = 16) :
    isUnspecifiedAddress ⟨bytes,false⟩ = true ↔
      bytes = List.replicate 16 0 ∨ bytes = List.replicate 10 0 ++ [255,255] ++ List.replicate 4 0 := by
  rw [isUnspecifiedAddress_ipv6]
  cases hmapped : isIpv4MappedAddress ⟨bytes,false⟩ with
  | false =>
    rw [if_neg (by simp),all_zero_iff,hlength]
    refine ⟨Or.inl,fun h => h.resolve_right ?_⟩
    intro hbytes
    rw [(isIpv4MappedAddress_iff hlength).mpr ⟨_,hbytes⟩] at hmapped
    cases hmapped
  | true =>
    obtain ⟨tail,rfl⟩ := (isIpv4MappedAddress_iff hlength).mp hmapped
    have htail : tail.length = 4 := by simpa using hlength
    have hdrop : (List.replicate 10 0 ++ [255,255] ++ tail).drop 12 = tail := rfl
    rw [if_pos rfl,hdrop,List.take_of_length_le htail.le,all_zero_iff,htail]
    constructor
    · intro h
      exact Or.inr (by rw [h])
    · rintro (h | h)
      · exact absurd (congrArg (fun bytes => bytes[10]?) h) (by simp)
      · exact List.append_cancel_left h

theorem isUnspecifiedAddress_iff (address : IpAddress) :
    isUnspecifiedAddress address.network = true ↔ address.Wildcard := by
  cases address with
  | v4 value =>
    have hzero : networkBytes 4 (0 : ℕ) = List.replicate 4 0 := rfl
    have hlength := networkBytes_length 4 value.val
    rw [IpAddress.network,isUnspecifiedAddress_ipv4,List.take_left' hlength,all_zero_iff,hlength,← hzero]
    exact ⟨networkBytes_injective value.isLt (by decide),fun h => by rw [show value.val = 0 from h]⟩
  | v6 value =>
    have hzero : networkBytes 16 (0 : ℕ) = List.replicate 16 0 := rfl
    have hmarked : networkBytes 16 (0xFFFF * 2 ^ 32) = List.replicate 10 0 ++ [255,255] ++ List.replicate 4 0 :=
      rfl
    rw [IpAddress.network,isUnspecifiedAddress_bytes (networkBytes_length 16 value.val),← hzero,← hmarked]
    have hinjective {n : ℕ} (hn : n < 256 ^ 16) : networkBytes 16 value.val = networkBytes 16 n ↔ value.val = n :=
      ⟨networkBytes_injective value.isLt hn,fun h => by rw [h]⟩
    rw [hinjective (by decide),hinjective (by decide)]
    exact Iff.rfl

end SpareNode.Ip
