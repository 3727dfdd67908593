import SpareNode.Foundation.AddressAcceptance
import SpareNode.Http.Request.RequestTarget

/-! # The bytes of an authority

A valid authority is written with letters, digits and a few marks. It holds neither whitespace nor
a line end nor a byte that ends an authority, so it can stand in a target and in a Host field.
-/
namespace SpareNode.Http

/-- What the host names, the addresses and the ports are written with. -/
def isAuthorityCharacter (b : Byte) : Bool :=
  isAsciiDigit b || isAsciiLetter b || (ascii "-.:[]").contains b

theorem isAuthorityCharacter_class : ∀ b, isAuthorityCharacter b = true →
    isHttpFieldValueByte b = true ∧ isOptionalWhitespace b = false ∧ isAuthorityEnd b = false :=
  forall_byte (by decide +kernel)

theorem digit_authority : ∀ b, isDigit 10 b = true → isAuthorityCharacter b = true :=
  forall_byte (by decide +kernel)

theorem hostname_authority : ∀ b, isHostnameCharacter b = true → isAuthorityCharacter b = true :=
  forall_byte (by decide +kernel)

theorem dotted_authority : ∀ b, (isAsciiDigit b || b == char '.') = true → isAuthorityCharacter b = true :=
  forall_byte (by decide +kernel)

theorem hexadecimal_authority : ∀ b, (digitValue b).isSome = true → isAuthorityCharacter b = true :=
  forall_byte (by decide +kernel)

theorem all_of_imp {p q : Byte → Bool} (hpq : ∀ b, p b = true → q b = true) {s : Bytes} (h : s.all p = true) :
    s.all q = true :=
  List.all_eq_true.mpr fun b hb => hpq b (List.all_eq_true.mp h b hb)

/-- A text is of one class when the parts around an occurrence are. -/
theorem all_of_find {c : Byte} {s : Bytes} {i : ℕ} (hc : isAuthorityCharacter c = true) (h : find c s = some i)
    (hbefore : (s.take i).all isAuthorityCharacter = true)
    (hafter : (s.drop (i + 1)).all isAuthorityCharacter = true) : s.all isAuthorityCharacter = true := by
  obtain ⟨hsplit,-⟩ := find_split h
  rw [hsplit,List.all_append,List.all_cons,hbefore,hc,hafter]
  rfl

theorem parseDecimal_characters {text : Bytes} {maximum : ℕ} (h : parseDecimal text maximum = true) :
    text.all isAuthorityCharacter = true := by
  unfold parseDecimal at h
  split at h
  · next value rest hchars =>
    obtain ⟨digits,rfl,-,hall,-⟩ := fromChars_eq_some_iff.mp hchars
    rw [Bool.and_eq_true,List.isEmpty_iff] at h
    rw [h.1,List.append_nil]
    exact all_of_imp digit_authority hall
  · cases h

theorem isValidLabel_characters {label : Bytes} (h : isValidLabel label = true) :
    label.all isAuthorityCharacter = true := by
  simp only [isValidLabel,Bool.and_eq_true] at h
  exact all_of_imp hostname_authority h.2

theorem validLabels_characters (rest : Bytes) (h : validLabels rest = true) :
    rest.all isAuthorityCharacter = true := by
  fun_induction validLabels rest with
  | case1 => rfl
  | case2 rest _ _ => exact isValidLabel_characters h
  | case3 rest _ dot hdot ih =>
    rw [Bool.and_eq_true] at h
    exact all_of_find (by decide) hdot (isValidLabel_characters h.1) (ih h.2)

theorem isValidHostname_characters {hostname : Bytes} (h : isValidHostname hostname = true) :
    hostname.all isAuthorityCharacter = true := by
  unfold isValidHostname at h
  split at h
  · cases h
  · rename_i hne
    cases hrooted : hostname.getLast? == some (char '.') with
    | true =>
      simp only [hrooted,if_true,Bool.true_and] at h
      split at h
      · cases h
      · split at h
        · cases h
        · rw [beq_iff_eq,List.getLast?_eq_some_getLast hne,Option.some.injEq] at hrooted
          rw [← List.dropLast_append_getLast hne,List.all_append,validLabels_characters _ h,hrooted]
          decide
    | false =>
      simp only [hrooted,Bool.false_eq_true,if_false,Bool.false_and] at h
      split at h
      · cases h
      · exact validLabels_characters _ h

theorem looksLikeIpv4_characters {host : Bytes} (h : looksLikeIpv4 host = true) :
    host.all isAuthorityCharacter = true := by
  simp only [looksLikeIpv4,Bool.and_eq_true] at h
  exact all_of_imp dotted_authority h.2

theorem host_characters {host : Bytes}
    (h : (if looksLikeIpv4 host then Ip.isValidIpv4Address host else isValidHostname host) = true) :
    host.all isAuthorityCharacter = true := by
  split at h
  · exact looksLikeIpv4_characters (by assumption)
  · exact isValidHostname_characters h

section Grammar
open Ip

theorem decOctet_characters {s : Bytes} {octet : ℕ} (h : DecOctet s octet) : s.all isAuthorityCharacter = true := by
  obtain ⟨-,-,-,hdigits,-⟩ := parseOctet_cases (parseOctet_iff.mpr h)
  refine all_of_imp (fun b hb => dotted_authority b ?_) hdigits
  rw [isAsciiDigit,hb]
  rfl

theorem dottedOctets_characters {s : Bytes} {octets : List ℕ} (h : DottedOctets s octets) :
    s.all isAuthorityCharacter = true := by
  induction h with
  | last h => exact decOctet_characters h
  | cons h _ ih =>
    rw [List.all_append,List.all_cons,decOctet_characters h,ih]
    decide

theorem h16_characters {s : Bytes} {word : ℕ} (h : H16 s word) : s.all isAuthorityCharacter = true := by
  refine all_of_imp (fun b hb => hexadecimal_authority b ?_) h.digits
  obtain ⟨v,hv,-⟩ := isDigit_iff.mp hb
  rw [hv]
  rfl

theorem ipv6Groups_characters {tail : Bool} {s : Bytes} {words : List ℕ} (h : Ipv6Groups tail s words) :
    s.all isAuthorityCharacter = true := by
  induction h with
  | last h => exact h16_characters h
  | ipv4 _ h => exact dottedOctets_characters h.1
  | cons h _ ih =>
    rw [List.all_append,List.all_cons,h16_characters h,ih]
    decide

theorem ipv6Side_characters {tail : Bool} {s : Bytes} {words : List ℕ} (h : Ipv6Side tail s words) :
    s.all isAuthorityCharacter = true := by
  cases h with
  | empty => rfl
  | groups h => exact ipv6Groups_characters h

theorem isValidIpv6Address_characters {value : Bytes} (h : isValidIpv6Address value = true) :
    value.all isAuthorityCharacter = true := by
  unfold isValidIpv6Address at h
  split at h
  · rename_i address haddress
    rcases parseNumericAddress_iff.mp haddress with ⟨octets,htext,-⟩ | ⟨words,htext,-⟩
    · exact dottedOctets_characters htext.1
    · cases htext with
      | full hgroups _ => exact ipv6Groups_characters hgroups
      | compressed hleft hright _ _ =>
        rw [List.all_append,List.all_cons,List.all_cons,ipv6Side_characters hleft,ipv6Side_characters hright]
        decide
  · cases h

end Grammar

theorem isValidIpLiteralAuthority_characters {authority : Bytes} (hfirst : authority.head? = some (char '['))
    (h : isValidIpLiteralAuthority authority = true) : authority.all isAuthorityCharacter = true := by
  unfold isValidIpLiteralAuthority at h
  split at h
  · cases h
  · rename_i closing hclosing
    split at h
    · cases h
    · rename_i hvalid
      obtain ⟨hempty,haddress⟩ := not_or.mp hvalid
      rw [Bool.not_eq_false] at haddress
      have hafter : (authority.drop (closing + 1)).all isAuthorityCharacter = true := by
        split at h
        · rename_i hend
          rw [hend]
          rfl
        · rename_i b port hport
          rw [Bool.and_eq_true,beq_iff_eq] at h
          rw [hport,List.all_cons,h.1,parseDecimal_characters h.2]
          decide
      refine all_of_find (by decide) hclosing ?_ hafter
      obtain ⟨rest,rfl⟩ : ∃ rest, authority = char '[' :: rest := by
        cases authority with
        | nil => cases hfirst
        | cons first rest => exact ⟨rest,by rw [Option.some.inj hfirst]⟩
      have hinner := isValidIpv6Address_characters haddress
      cases closing with
      | zero => rfl
      | succ closing =>
        simp only [substr,List.drop_succ_cons,List.drop_zero,Nat.add_sub_cancel] at hinner
        rw [List.take_succ_cons,List.all_cons,hinner]
        decide

theorem isValidHostAuthority_characters {authority : Bytes} (h : isValidHostAuthority authority = true) :
    authority.all isAuthorityCharacter = true := by
  unfold isValidHostAuthority at h
  split at h
  · cases h
  · rename_i first rest
    split at h
    · rename_i hfirst
      exact isValidIpLiteralAuthority_characters (by rw [hfirst]; rfl) h
    · split at h
      · cases h
      · split at h
        · exact host_characters h
        · rename_i colon hcolon
          dsimp only at h
          split at h
          · cases h
          · split at h
            · cases h
            · rename_i hport
              rw [Bool.or_eq_true,not_or,Bool.not_eq_true',Bool.not_eq_false] at hport
              exact all_of_find (by decide) hcolon (host_characters h) (parseDecimal_characters hport.2)

/-- A valid authority can stand in a Host field as it is. -/
structure FieldText (authority : Bytes) : Prop where
  nonempty : authority ≠ []
  value : authority.all isHttpFieldValueByte = true
  trimmed : Trimmed authority
  inside : authority.all (fun b => !isAuthorityEnd b) = true
  unbroken : cr ∉ authority ∧ lf ∉ authority ∧ char ' ' ∉ authority

theorem isValidHostAuthority_text {authority : Bytes} (h : isValidHostAuthority authority = true) :
    FieldText authority := by
  have hall := isValidHostAuthority_characters h
  have hclass (b : Byte) (hb : b ∈ authority) := isAuthorityCharacter_class b (List.all_eq_true.mp hall b hb)
  refine ⟨?_,List.all_eq_true.mpr fun b hb => (hclass b hb).1,
    ⟨fun b hb => (hclass b (List.mem_of_head? hb)).2.1,fun b hb => (hclass b (List.mem_of_getLast? hb)).2.1⟩,
    List.all_eq_true.mpr fun b hb => by rw [(hclass b hb).2.2]; rfl,
    not_mem_of_all hall (by decide),not_mem_of_all hall (by decide),not_mem_of_all hall (by decide)⟩
  rintro rfl
  revert h
  decide +kernel

end SpareNode.Http
