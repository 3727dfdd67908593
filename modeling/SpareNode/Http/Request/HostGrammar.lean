import SpareNode.Foundation.AddressAcceptance
import SpareNode.Http.Request.HostAuthority

/-! # The grammar of host authorities

A host is a bracketed IPv6 address, an IPv4 address or a DNS name; an authority is a host with an
optional port. What is written with digits and dots only is an IPv4 address or nothing. The validation
accepts exactly these texts.
-/
namespace SpareNode.Http
open Ip

/-- A non-empty decimal of at most sixteen bits. -/
structure PortText (s : Bytes) : Prop where
  nonempty : s ≠ []
  digits : s.all (isDigit 10) = true
  range : numeral 10 s ≤ 65535

/-- One to 63 letters, digits or hyphens; the first and the last are no hyphens. -/
structure Label (s : Bytes) : Prop where
  nonempty : s ≠ []
  short : s.length ≤ 63
  characters : ∀ b ∈ s, isAsciiLetter b = true ∨ isAsciiDigit b = true ∨ b = char '-'
  first : s.head? ≠ some (char '-')
  last : s.getLast? ≠ some (char '-')

inductive Labels : Bytes → Prop
  | last {s : Bytes} (h : Label s) : Labels s
  | cons {s t : Bytes} (h : Label s) (ht : Labels t) : Labels (s ++ char '.' :: t)

/-- A name of at most 253 bytes, with at most one root dot after it. -/
def DnsName (s : Bytes) : Prop := ∃ name, Labels name ∧ name.length ≤ 253 ∧ (s = name ∨ s = name ++ [char '.'])

def Dotted (s : Bytes) : Prop := char '.' ∈ s ∧ ∀ b ∈ s, isAsciiDigit b = true ∨ b = char '.'

def Unmarked (s : Bytes) : Prop := char '[' ∉ s ∧ char ']' ∉ s ∧ char ':' ∉ s

inductive Host : Bytes → Prop
  | ipv6 {s : Bytes} {words : List ℕ} (h : Ipv6Text s words) (hbrackets : char '[' ∉ s ∧ char ']' ∉ s) :
      Host (char '[' :: s ++ [char ']'])
  | ipv4 {s : Bytes} {octets : List ℕ} (hdotted : Dotted s) (h : Ipv4Text s octets) (hmarks : Unmarked s) : Host s
  | name {s : Bytes} (hdotted : ¬Dotted s) (h : DnsName s) (hmarks : Unmarked s) : Host s

inductive Authority : Bytes → Prop
  | host {s : Bytes} (h : Host s) : Authority s
  | port {s p : Bytes} (h : Host s) (hp : PortText p) (hmarks : Unmarked p) : Authority (s ++ char ':' :: p)

theorem isDigit_ascii : ∀ b, isAsciiDigit b = isDigit 10 b := forall_byte (by decide +kernel)

theorem isValidPort_iff {port : Bytes} : isValidPort port = true ↔ PortText port := by
  unfold isValidPort parseDecimal
  constructor
  · intro h
    split at h
    · rename_i value rest hchars
      obtain ⟨digits,rfl,hne,hdigits,-,rfl,-⟩ := fromChars_eq_some_iff.mp hchars
      rw [Bool.and_eq_true,List.isEmpty_iff,decide_eq_true_eq] at h
      obtain ⟨rfl,hrange⟩ := h
      rw [List.append_nil]
      exact ⟨hne,hdigits,hrange⟩
    · cases h
  · intro h
    have hchars : fromChars 10 (2 ^ 32 - 1) port = some (numeral 10 port,[]) :=
      fromChars_eq_some_iff.mpr ⟨port,(List.append_nil port).symm,h.nonempty,h.digits,by simp,rfl,
        h.range.trans (by norm_num)⟩
    rw [hchars]
    simp only [List.isEmpty_nil,Bool.true_and,decide_eq_true_eq]
    exact h.range

theorem PortText.unmarked {s : Bytes} (h : PortText s) : Unmarked s :=
  ⟨not_mem_of_all h.digits (by decide),not_mem_of_all h.digits (by decide),not_mem_of_all h.digits (by decide)⟩

theorem hostnameCharacter_iff : ∀ b, isHostnameCharacter b = true ↔
    isAsciiLetter b = true ∨ isAsciiDigit b = true ∨ b = char '-' :=
  forall_byte (by decide +kernel)

theorem hostnameBoundary_iff : ∀ b, isHostnameBoundary b = true ↔
    isHostnameCharacter b = true ∧ b ≠ char '-' :=
  forall_byte (by decide +kernel)

theorem isValidLabel_iff {label : Bytes} : isValidLabel label = true ↔ Label label := by
  simp only [isValidLabel,Bool.and_eq_true,Bool.not_eq_true',List.isEmpty_eq_false_iff,decide_eq_true_eq,
    List.all_eq_true,hostnameCharacter_iff]
  constructor
  · rintro ⟨⟨⟨⟨hne,hshort⟩,hfirst⟩,hlast⟩,hall⟩
    refine ⟨hne,hshort,hall,?_,?_⟩
    · intro hhyphen
      rw [hhyphen] at hfirst
      exact absurd hfirst (by decide)
    · intro hhyphen
      rw [hhyphen] at hlast
      exact absurd hlast (by decide)
  · rintro ⟨hne,hshort,hall,hfirst,hlast⟩
    refine ⟨⟨⟨⟨hne,hshort⟩,?_⟩,?_⟩,hall⟩
    · cases hhead : label.head? with
      | none => exact absurd (List.head?_eq_none_iff.mp hhead) hne
      | some b =>
        rw [hhead] at hfirst
        exact (hostnameBoundary_iff b).mpr ⟨(hostnameCharacter_iff b).mpr (hall b (List.mem_of_head? hhead)),
          fun hb => hfirst (congrArg some hb)⟩
    · cases hend : label.getLast? with
      | none => exact absurd (List.getLast?_eq_none_iff.mp hend) hne
      | some b =>
        rw [hend] at hlast
        exact (hostnameBoundary_iff b).mpr ⟨(hostnameCharacter_iff b).mpr (hall b (List.mem_of_getLast? hend)),
          fun hb => hlast (congrArg some hb)⟩

theorem Label.text {s : Bytes} (h : Label s) : char '.' ∉ s ∧ Unmarked s := by
  have hmarks (c : Byte) (hc : isHostnameCharacter c = false) : c ∉ s := by
    intro hmem
    rw [(hostnameCharacter_iff c).mpr (h.characters c hmem)] at hc
    cases hc
  exact ⟨hmarks _ (by decide),hmarks _ (by decide),hmarks _ (by decide),hmarks _ (by decide)⟩

/-- The label loop takes a name that does not end in a dot apart into its labels. -/
theorem validLabels_iff (rest : Bytes) (hne : rest ≠ []) (hlast : rest.getLast? ≠ some (char '.')) :
    validLabels rest = true ↔ Labels rest := by
  fun_induction validLabels rest with
  | case1 => exact absurd rfl hne
  | case2 rest _ hdot =>
    rw [isValidLabel_iff]
    constructor
    · exact .last
    · intro h
      cases h with
      | last h => exact h
      | cons h ht =>
        rw [find_append _ h.text.1] at hdot
        cases hdot
  | case3 rest _ dot hdot ih =>
    have hsplit := (find_split hdot).1
    have hrest : rest.drop (dot + 1) ≠ [] := by
      intro hempty
      rw [hsplit,hempty] at hlast
      simp at hlast
    have hlast' : (rest.drop (dot + 1)).getLast? ≠ some (char '.') := by
      intro hend
      rw [hsplit] at hlast
      apply hlast
      rw [List.getLast?_append,List.getLast?_cons,hend]
      rfl
    rw [Bool.and_eq_true,isValidLabel_iff,ih hrest hlast']
    constructor
    · rintro ⟨hlabel,hlabels⟩
      rw [hsplit]
      exact .cons hlabel hlabels
    · intro h
      cases h with
      | last h => exact absurd h.text.1 (by rw [hsplit]; simp)
      | @cons s t h ht =>
        rw [find_append _ h.text.1] at hdot
        obtain rfl := Option.some.inj hdot
        rw [List.take_left,drop_cons_append]
        exact ⟨h,ht⟩

theorem Labels.text {s : Bytes} (h : Labels s) : s ≠ [] ∧ s.getLast? ≠ some (char '.') ∧ Unmarked s := by
  induction h with
  | last h =>
    refine ⟨h.nonempty,?_,h.text.2⟩
    intro hend
    exact h.text.1 (List.mem_of_getLast? hend)
  | @cons s t h _ ih =>
    obtain ⟨hne,hlast,hopen,hclose,hcolon⟩ := ih
    obtain ⟨-,hopen',hclose',hcolon'⟩ := h.text
    refine ⟨by simp,?_,?_⟩
    · rw [List.getLast?_append,List.getLast?_cons]
      cases hend : t.getLast? with
      | none => exact absurd (List.getLast?_eq_none_iff.mp hend) hne
      | some b =>
        rw [hend] at hlast
        simpa using hlast
    · have hdot : char '.' ≠ char '[' ∧ char '.' ≠ char ']' ∧ char '.' ≠ char ':' := by decide
      simp only [Unmarked,List.mem_append,List.mem_cons,not_or]
      exact ⟨⟨hopen',hdot.1.symm,hopen⟩,⟨hclose',hdot.2.1.symm,hclose⟩,hcolon',hdot.2.2.symm,hcolon⟩

theorem isValidHostname_iff {hostname : Bytes} : isValidHostname hostname = true ↔ DnsName hostname := by
  unfold isValidHostname
  by_cases hne : hostname = []
  · rw [if_pos hne]
    constructor
    · intro h
      cases h
    · rintro ⟨name,hlabels,-,rfl | rfl⟩
      · exact absurd hne hlabels.text.1
      · simp at hne
  · rw [if_neg hne]
    cases hrooted : hostname.getLast? == some (char '.') with
    | false =>
      have hlast : hostname.getLast? ≠ some (char '.') := by simpa using hrooted
      simp only [Bool.false_eq_true,if_false,Bool.false_and]
      constructor
      · intro h
        split at h
        · cases h
        · rename_i hshort
          have hshort : ¬253 < hostname.length := hshort
          exact ⟨hostname,(validLabels_iff hostname hne hlast).mp h,by omega,Or.inl rfl⟩
      · rintro ⟨name,hlabels,hshort,rfl | rfl⟩
        · rw [if_neg (show ¬maximumHostnameBytes < hostname.length from not_lt.mpr hshort)]
          exact (validLabels_iff hostname hne hlast).mpr hlabels
        · simp at hlast
    | true =>
      -- the root dot is removed first
      rw [beq_iff_eq,List.getLast?_eq_some_getLast hne,Option.some.injEq] at hrooted
      have hsplit : hostname.dropLast ++ [char '.'] = hostname := by
        rw [← hrooted]
        exact List.dropLast_append_getLast hne
      simp only [if_true,Bool.true_and]
      constructor
      · intro h
        split at h
        · cases h
        · rename_i hends
          rw [Bool.or_eq_true,not_or,List.isEmpty_iff,beq_iff_eq] at hends
          split at h
          · cases h
          · rename_i hshort
            have hshort : ¬253 < hostname.dropLast.length := hshort
            exact ⟨hostname.dropLast,(validLabels_iff _ hends.1 hends.2).mp h,by omega,Or.inr hsplit.symm⟩
      · rintro ⟨name,hlabels,hshort,rfl | rfl⟩
        · exfalso
          apply hlabels.text.2.1
          rw [List.getLast?_eq_some_getLast hne,hrooted]
        · rw [List.dropLast_concat]
          obtain ⟨hname,hlast,-⟩ := hlabels.text
          rw [if_neg (by simp [hname,hlast]),
            if_neg (show ¬maximumHostnameBytes < name.length from not_lt.mpr hshort)]
          exact (validLabels_iff name hname hlast).mpr hlabels

theorem looksLikeIpv4_iff {host : Bytes} : looksLikeIpv4 host = true ↔ Dotted host := by
  simp [looksLikeIpv4,Dotted]

theorem host_iff {host : Bytes} (hmarks : Unmarked host) :
    (if looksLikeIpv4 host then isValidIpv4Address host else isValidHostname host) = true ↔ Host host := by
  have hopen : ∀ s : Bytes, host ≠ char '[' :: s ++ [char ']'] := by
    rintro s rfl
    exact hmarks.1 (by simp)
  by_cases hdotted : Dotted host
  · rw [if_pos (looksLikeIpv4_iff.mpr hdotted),isValidIpv4Address,Option.isSome_iff_exists]
    constructor
    · rintro ⟨octets,h⟩
      exact .ipv4 hdotted (parseIpv4_iff.mp h) hmarks
    · intro h
      cases h with
      | ipv6 h => exact absurd rfl (hopen _)
      | ipv4 _ h _ => exact ⟨_,parseIpv4_iff.mpr h⟩
      | name hname _ _ => exact absurd hdotted hname
  · rw [if_neg (fun h => hdotted (looksLikeIpv4_iff.mp h)),isValidHostname_iff]
    constructor
    · exact fun h => .name hdotted h hmarks
    · intro h
      cases h with
      | ipv6 h => exact absurd rfl (hopen _)
      | ipv4 h _ _ => exact absurd h hdotted
      | name _ h _ => exact h

theorem isValidIpv6Address_iff {value : Bytes} : isValidIpv6Address value = true ↔ ∃ words, Ipv6Text value words := by
  unfold isValidIpv6Address
  constructor
  · intro h
    split at h
    · rename_i address hparse
      rcases parseNumericAddress_iff.mp hparse with ⟨octets,-,rfl⟩ | ⟨words,htext,-⟩
      · cases h
      · exact ⟨words,htext⟩
    · cases h
  · rintro ⟨words,h⟩
    rw [parseNumericAddress_iff.mpr (Or.inr ⟨words,h,rfl⟩)]
    rfl

theorem decOctet_not_mem {c : Byte} (hc : isDigit 16 c = false) {s : Bytes} {octet : ℕ} (h : DecOctet s octet) :
    c ∉ s := by
  obtain ⟨-,-,-,hdigits,-,-⟩ := parseOctet_cases (parseOctet_iff.mpr h)
  have hhexadecimal : ∀ b, (char '0' ≤ b && b ≤ char '9') = true → isDigit 16 b = true :=
    forall_byte (by decide +kernel)
  intro hmem
  have hdigit := hhexadecimal c (List.all_eq_true.mp hdigits c hmem)
  rw [hc] at hdigit
  cases hdigit

theorem ipv4Text_not_mem {c : Byte} (hc : isDigit 16 c = false) (hdot : c ≠ char '.') {s : Bytes} {octets : List ℕ}
    (h : Ipv4Text s octets) : c ∉ s := by
  obtain ⟨h,-⟩ := h
  induction h with
  | last h => exact decOctet_not_mem hc h
  | cons h _ ih =>
    rw [List.mem_append,List.mem_cons,not_or,not_or]
    exact ⟨decOctet_not_mem hc h,hdot,ih⟩

theorem ipv6Groups_not_mem {c : Byte} (hc : isDigit 16 c = false) (hdot : c ≠ char '.') (hcolon : c ≠ char ':')
    {tail : Bool} {s : Bytes} {words : List ℕ} (h : Ipv6Groups tail s words) : c ∉ s := by
  induction h with
  | last h => exact not_mem_of_all h.digits hc
  | ipv4 _ h => exact ipv4Text_not_mem hc hdot h
  | cons h _ ih =>
    rw [List.mem_append,List.mem_cons,not_or,not_or]
    exact ⟨not_mem_of_all h.digits hc,hcolon,ih⟩

theorem ipv6Side_not_mem {c : Byte} (hc : isDigit 16 c = false) (hdot : c ≠ char '.') (hcolon : c ≠ char ':')
    {tail : Bool} {s : Bytes} {words : List ℕ} (h : Ipv6Side tail s words) : c ∉ s := by
  cases h with
  | empty => exact List.not_mem_nil
  | groups h => exact ipv6Groups_not_mem hc hdot hcolon h

theorem ipv6Text_not_mem {c : Byte} (hc : isDigit 16 c = false) (hdot : c ≠ char '.') (hcolon : c ≠ char ':')
    {s : Bytes} {words : List ℕ} (h : Ipv6Text s words) : c ∉ s := by
  cases h with
  | full h _ => exact ipv6Groups_not_mem hc hdot hcolon h
  | compressed hleft hright _ _ =>
    rw [List.mem_append,List.mem_cons,List.mem_cons,not_or,not_or,not_or]
    exact ⟨ipv6Side_not_mem hc hdot hcolon hleft,hcolon,hcolon,ipv6Side_not_mem hc hdot hcolon hright⟩

theorem unbracketed {s : Bytes} {words : List ℕ} (h : Ipv6Text s words) : char '[' ∉ s ∧ char ']' ∉ s :=
  ⟨ipv6Text_not_mem (by decide) (by decide) (by decide) h,ipv6Text_not_mem (by decide) (by decide) (by decide) h⟩

/-- What may follow a host: nothing, or a colon and a port. -/
def Suffix (s : Bytes) : Prop := s = [] ∨ ∃ port, s = char ':' :: port ∧ PortText port

theorem authority_iff {s : Bytes} : Authority s ↔ ∃ host suffix, s = host ++ suffix ∧ Host host ∧ Suffix suffix := by
  constructor
  · intro h
    cases h with
    | host h => exact ⟨s,[],(List.append_nil s).symm,h,Or.inl rfl⟩
    | port h hp _ => exact ⟨_,_,rfl,h,Or.inr ⟨_,rfl,hp⟩⟩
  · rintro ⟨host,suffix,rfl,h,rfl | ⟨port,rfl,hport⟩⟩
    · rw [List.append_nil]
      exact .host h
    · exact .port h hport hport.unmarked

theorem suffix_iff {suffix : Bytes} :
    (match suffix with
      | [] => true
      | b :: port => b == char ':' && isValidPort port) = true ↔ Suffix suffix := by
  cases suffix with
  | nil => exact ⟨fun _ => Or.inl rfl,fun _ => rfl⟩
  | cons b port => simp [Suffix,isValidPort_iff]

theorem Suffix.unbracketed {suffix : Bytes} (h : Suffix suffix) : char '[' ∉ suffix ∧ char ']' ∉ suffix := by
  rcases h with rfl | ⟨port,rfl,hport⟩
  · exact ⟨List.not_mem_nil,List.not_mem_nil⟩
  · obtain ⟨hopen,hclose,-⟩ := hport.unmarked
    have hcolon : char '[' ≠ char ':' ∧ char ']' ≠ char ':' := by decide
    simp [hopen,hclose,hcolon]

theorem isValidIpLiteralAuthority_bracketed {s suffix : Bytes} (hbrackets : char ']' ∉ s) (hne : s ≠ []) :
    isValidIpLiteralAuthority (char '[' :: s ++ [char ']'] ++ suffix) = true ↔
      isValidIpv6Address s = true ∧ Suffix suffix := by
  have htext : char '[' :: s ++ [char ']'] ++ suffix = char '[' :: s ++ char ']' :: suffix := by simp
  have hfind : find (char ']') (char '[' :: s ++ char ']' :: suffix) = some (s.length + 1) :=
    find_append suffix (by
      rw [List.mem_cons,not_or]
      exact ⟨by decide,hbrackets⟩)
  have hinner : substr (char '[' :: s ++ char ']' :: suffix) 1 (s.length + 1 - 1) = s := by simp [substr]
  have hafter : (char '[' :: s ++ char ']' :: suffix).drop (s.length + 1 + 1) = suffix :=
    drop_cons_append (char '[' :: s) suffix (char ']')
  have hlength : s.length + 1 ≠ 1 := by simpa using hne
  rw [htext,isValidIpLiteralAuthority,hfind]
  dsimp only
  rw [hinner,hafter,← suffix_iff]
  cases haddress : isValidIpv6Address s with
  | false => simp
  | true =>
    rw [if_neg (by simp [hne])]
    simp only [true_and]
    rfl

theorem ipv6Text_ne_nil {s : Bytes} {words : List ℕ} (h : Ipv6Text s words) : s ≠ [] := by
  rintro rfl
  exact List.not_mem_nil h.colon

theorem isValidIpLiteralAuthority_iff {rest : Bytes} :
    isValidIpLiteralAuthority (char '[' :: rest) = true ↔ Authority (char '[' :: rest) := by
  rw [authority_iff]
  constructor
  · intro h
    cases hfind : find (char ']') (char '[' :: rest) with
    | none => simp [isValidIpLiteralAuthority,hfind] at h
    | some closing =>
      obtain ⟨before,after,hsplit,hclose,-⟩ := find_eq_some_iff.mp hfind
      cases before with
      | nil => exact absurd (List.cons.inj hsplit).1 (by decide)
      | cons b inner =>
        obtain ⟨rfl,hrest⟩ := List.cons.inj hsplit
        have hinner : char ']' ∉ inner := fun hmem => hclose (List.mem_cons_of_mem _ hmem)
        have htext : char '[' :: rest = char '[' :: inner ++ [char ']'] ++ after := by
          rw [hrest]
          simp
        by_cases hne : inner = []
        · subst hne
          have hempty : find (char ']') (char '[' :: char ']' :: after) = some 1 :=
            find_append (a := [char '[']) after (by decide)
          rw [htext] at h
          simp [isValidIpLiteralAuthority,hempty] at h
        · rw [htext,isValidIpLiteralAuthority_bracketed hinner hne] at h
          obtain ⟨words,hwords⟩ := isValidIpv6Address_iff.mp h.1
          exact ⟨_,after,htext,.ipv6 hwords (unbracketed hwords),h.2⟩
  · rintro ⟨host,suffix,htext,h,hsuffix⟩
    have hbracket : char '[' ∈ host := by
      cases host with
      | nil =>
        have htext : char '[' :: rest = suffix := htext
        exact absurd (htext ▸ List.mem_cons_self) hsuffix.unbracketed.1
      | cons b host =>
        rw [(List.cons.inj htext).1]
        exact List.mem_cons_self
    rw [htext]
    cases h with
    | ipv6 h hbrackets =>
      exact (isValidIpLiteralAuthority_bracketed hbrackets.2 (ipv6Text_ne_nil h)).mpr
        ⟨isValidIpv6Address_iff.mpr ⟨_,h⟩,hsuffix⟩
    | ipv4 _ _ hmarks => exact absurd hbracket hmarks.1
    | name _ _ hmarks => exact absurd hbracket hmarks.1

/-- A host without brackets does not hold the colon before its port. -/
theorem Host.unmarked {host : Bytes} (h : Host host) (hfirst : host.head? ≠ some (char '[')) :
    host ≠ [] ∧ Unmarked host := by
  cases h with
  | ipv6 => exact absurd rfl hfirst
  | ipv4 _ h hmarks => exact ⟨h.text.1,hmarks⟩
  | name _ h hmarks =>
    refine ⟨?_,hmarks⟩
    obtain ⟨name,hlabels,-,rfl | rfl⟩ := h
    · exact hlabels.text.1
    · simp

theorem PortText.suffix {port : Bytes} (h : PortText port) : Suffix (char ':' :: port) := Or.inr ⟨port,rfl,h⟩

/-- An authority that does not begin with a bracket has no brackets, and its host ends at the first colon. -/
theorem isValidHostAuthority_unbracketed {first : Byte} {rest : Bytes} (hfirst : first ≠ char '[') :
    isValidHostAuthority (first :: rest) = true ↔ Authority (first :: rest) := by
  generalize hs : first :: rest = s
  have hhead : s.head? ≠ some (char '[') := by
    rw [← hs]
    simpa using hfirst
  have hne : s ≠ [] := by
    rw [← hs]
    simp
  rw [authority_iff]
  constructor
  · intro h
    rw [← hs,isValidHostAuthority,if_neg hfirst,hs] at h
    split at h
    · cases h
    · rename_i hbrackets
      simp only [Bool.or_eq_true,List.contains_iff_mem,not_or] at hbrackets
      split at h
      · rename_i hcolon
        exact ⟨s,[],(List.append_nil s).symm,
          (host_iff ⟨hbrackets.1,hbrackets.2,find_eq_none_iff.mp hcolon⟩).mp h,Or.inl rfl⟩
      · rename_i colon hcolon
        obtain ⟨hsplit,hhost⟩ := find_split hcolon
        have hmarks : Unmarked (s.take colon) :=
          ⟨fun hmem => hbrackets.1 (List.mem_of_mem_take hmem),fun hmem => hbrackets.2 (List.mem_of_mem_take hmem),hhost⟩
        dsimp only at h
        split at h
        · cases h
        · split at h
          · cases h
          · rename_i hport
            rw [Bool.or_eq_true,not_or,Bool.not_eq_true',Bool.not_eq_false] at hport
            exact ⟨_,_,hsplit,(host_iff hmarks).mp h,(isValidPort_iff.mp hport.2).suffix⟩
  · rintro ⟨host,suffix,rfl,h,hsuffix⟩
    have hhost : host.head? ≠ some (char '[') := by
      cases host with
      | nil =>
        intro hnone
        cases hnone
      | cons b host => exact hhead
    obtain ⟨hnonempty,hmarks⟩ := h.unmarked hhost
    have hbrackets : ((host ++ suffix).contains (char '[') || (host ++ suffix).contains (char ']')) = false := by
      simp [hmarks.1,hmarks.2.1,hsuffix.unbracketed]
    rw [← hs,isValidHostAuthority,if_neg hfirst,hs,hbrackets]
    simp only [Bool.false_eq_true,if_false]
    rcases hsuffix with rfl | ⟨port,rfl,hport⟩
    · rw [List.append_nil,find_eq_none_iff.mpr hmarks.2.2]
      exact (host_iff hmarks).mpr h
    · have hcolons : port.contains (char ':') = false := by simpa using hport.unmarked.2.2
      rw [find_append port hmarks.2.2]
      dsimp only
      rw [drop_cons_append,List.take_left,hcolons,isValidPort_iff.mpr hport,if_neg (by simp),if_neg (by simp [hnonempty])]
      exact (host_iff hmarks).mpr h

/-- The validation accepts exactly the authorities of the grammar. -/
theorem isValidHostAuthority_exact (s : Bytes) : isValidHostAuthority s = true ↔ Authority s := by
  cases s with
  | nil =>
    constructor
    · intro h
      cases h
    · intro h
      obtain ⟨host,suffix,hempty,h,-⟩ := authority_iff.mp h
      obtain ⟨rfl,-⟩ := List.append_eq_nil_iff.mp hempty.symm
      exact absurd rfl (h.unmarked (by simp)).1
  | cons first rest =>
    by_cases hfirst : first = char '['
    · subst hfirst
      rw [← isValidIpLiteralAuthority_iff,isValidHostAuthority,if_pos rfl]
    · exact isValidHostAuthority_unbracketed hfirst

end SpareNode.Http
