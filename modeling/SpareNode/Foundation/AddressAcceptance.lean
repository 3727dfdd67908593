import SpareNode.Foundation.AddressGrammar

/-! # What the address parser accepts

The parser reads exactly the texts of the grammar, one lemma for each of its loops. A component
never holds the separator that ends it, so the first occurrence of a separator is the one that the
grammar put there.
-/
namespace SpareNode.Ip

theorem digitByte_of_digit : ∀ b, (char '0' ≤ b && b ≤ char '9') = true →
    ∃ a ≤ 9, b = digitByte a ∧ digitValue b = some a := by
  intro b hb
  rw [Bool.and_eq_true,decide_eq_true_eq,decide_eq_true_eq] at hb
  have hlow : 48 ≤ b.toNat := UInt8.le_iff_toNat_le.mp hb.1
  have hhigh : b.toNat ≤ 57 := UInt8.le_iff_toNat_le.mp hb.2
  refine ⟨b.toNat - 48,by omega,?_,if_pos hb⟩
  rw [digitByte,Nat.add_sub_cancel' hlow,UInt8.ofNat_toNat]

theorem digitByte_digit : ∀ a ≤ 9, (char '0' ≤ digitByte a && digitByte a ≤ char '9') = true ∧
    digitValue (digitByte a) = some a ∧ digitByte a ≠ char '.' ∧ digitByte a ≠ char ':' := by
  decide

theorem digitByte_zero {a : ℕ} (ha : a ≤ 9) : digitByte a = char '0' ↔ a = 0 := by
  interval_cases a <;> decide

theorem numeral_digits {a b c : ℕ} (ha : a ≤ 9) (hb : b ≤ 9) (hc : c ≤ 9) :
    numeral 10 [digitByte a] = a ∧ numeral 10 [digitByte a,digitByte b] = a * 10 + b ∧
      numeral 10 [digitByte a,digitByte b,digitByte c] = (a * 10 + b) * 10 + c := by
  simp [numeral,(digitByte_digit a ha).2.1,(digitByte_digit b hb).2.1,(digitByte_digit c hc).2.1]

theorem parseOctet_digits {component : Bytes} (hne : component ≠ []) (hshort : component.length ≤ 3)
    (hzero : 1 < component.length → component.head? ≠ some (char '0'))
    (hdigits : component.all (fun b => char '0' ≤ b && b ≤ char '9') = true)
    (hrange : numeral 10 component ≤ 255) : parseOctet component = some (numeral 10 component) := by
  unfold parseOctet
  rw [if_neg (by push Not; exact ⟨hne,hshort,hzero⟩),if_pos hdigits,if_neg (by omega)]

theorem parseOctet_threeDigits {a b c : ℕ} (hfirst : 1 ≤ a) (ha : a ≤ 9) (hb : b ≤ 9) (hc : c ≤ 9)
    (h : (a * 10 + b) * 10 + c ≤ 255) :
    parseOctet [digitByte a,digitByte b,digitByte c] = some ((a * 10 + b) * 10 + c) := by
  have hvalue := (numeral_digits ha hb hc).2.2
  have hoctet := parseOctet_digits (List.cons_ne_nil (digitByte a) [digitByte b,digitByte c]) (by simp)
    (fun _ hzero => by
      have := (digitByte_zero ha).mp (Option.some.inj hzero)
      omega)
    (by simp [(digitByte_digit a ha).1,(digitByte_digit b hb).1,(digitByte_digit c hc).1]) (by omega)
  rwa [hvalue] at hoctet

theorem parseOctet_cases {component : Bytes} {octet : ℕ} (h : parseOctet component = some octet) :
    component ≠ [] ∧ component.length ≤ 3 ∧ (1 < component.length → component.head? ≠ some (char '0')) ∧
      component.all (fun b => char '0' ≤ b && b ≤ char '9') = true ∧ octet = numeral 10 component ∧
      octet ≤ 255 := by
  unfold parseOctet at h
  split at h
  · cases h
  · rename_i hshape
    push Not at hshape
    split at h
    · rename_i hdigits
      split at h
      · cases h
      · rename_i hrange
        obtain rfl := Option.some.inj h
        exact ⟨hshape.1,hshape.2.1,hshape.2.2,hdigits,rfl,by omega⟩
    · cases h

theorem parseOctet_iff {component : Bytes} {octet : ℕ} :
    parseOctet component = some octet ↔ DecOctet component octet := by
  constructor
  · intro h
    obtain ⟨hne,hshort,hzero,hall,rfl,hrange⟩ := parseOctet_cases h
    have hdigit (b : Byte) (hb : b ∈ component) := digitByte_of_digit b (List.all_eq_true.mp hall b hb)
    match component,hne with
    | [x],_ =>
      obtain ⟨a,ha,rfl,-⟩ := hdigit x (by simp)
      rw [(numeral_digits ha ha ha).1]
      exact .digit ha
    | [x,y],_ =>
      obtain ⟨a,ha,rfl,-⟩ := hdigit x (by simp)
      obtain ⟨b,hb,rfl,-⟩ := hdigit y (by simp)
      have hlead : a ≠ 0 := fun hzero' => hzero (by simp) (congrArg some ((digitByte_zero ha).mpr hzero'))
      rw [(numeral_digits ha hb hb).2.1]
      exact .twoDigits (by omega) ha hb
    | [x,y,z],_ =>
      obtain ⟨a,ha,rfl,-⟩ := hdigit x (by simp)
      obtain ⟨b,hb,rfl,-⟩ := hdigit y (by simp)
      obtain ⟨c,hc,rfl,-⟩ := hdigit z (by simp)
      have hlead : a ≠ 0 := fun hzero' => hzero (by simp) (congrArg some ((digitByte_zero ha).mpr hzero'))
      have hvalue := (numeral_digits ha hb hc).2.2
      rw [hvalue] at hrange ⊢
      -- the hundreds digit selects the alternative
      obtain rfl | rfl : a = 1 ∨ a = 2 := by omega
      · rw [show (1 * 10 + b) * 10 + c = 100 + b * 10 + c by omega]
        exact .oneHundred hb hc
      · obtain hb' | rfl : b ≤ 4 ∨ b = 5 := by omega
        · rw [show (2 * 10 + b) * 10 + c = 200 + b * 10 + c by omega]
          exact .twoHundred hb' hc
        · rw [show (2 * 10 + 5) * 10 + c = 250 + c by omega]
          exact .twoFifty (by omega)
    | _ :: _ :: _ :: _ :: _,_ =>
      simp only [List.length_cons] at hshort
      omega
  · intro h
    cases h with
    | digit ha =>
      have hvalue := (numeral_digits ha ha ha).1
      have hoctet := parseOctet_digits (List.cons_ne_nil (digitByte octet) []) (by simp) (by simp)
        (by simpa using (digitByte_digit octet ha).1) (by omega)
      rwa [hvalue] at hoctet
    | @twoDigits a b ha ha' hb =>
      have hvalue := (numeral_digits ha' hb hb).2.1
      have hoctet := parseOctet_digits (List.cons_ne_nil (digitByte a) [digitByte b]) (by simp)
        (fun _ hzero => by
          have := (digitByte_zero ha').mp (Option.some.inj hzero)
          omega)
        (by simp [(digitByte_digit a ha').1,(digitByte_digit b hb).1]) (by omega)
      rwa [hvalue] at hoctet
    | @oneHundred a b ha hb =>
      have hoctet := parseOctet_threeDigits (show 1 ≤ 1 by omega) (by omega) ha hb (by omega)
      rwa [show (1 * 10 + a) * 10 + b = 100 + a * 10 + b by omega] at hoctet
    | @twoHundred a b ha hb =>
      have hoctet := parseOctet_threeDigits (show 1 ≤ 2 by omega) (by omega) (show a ≤ 9 by omega) hb (by omega)
      rwa [show (2 * 10 + a) * 10 + b = 200 + a * 10 + b by omega] at hoctet
    | @twoFifty b hb =>
      have hoctet := parseOctet_threeDigits (show 1 ≤ 2 by omega) (by omega) (show 5 ≤ 9 by omega)
        (show b ≤ 9 by omega) (by omega)
      rwa [show (2 * 10 + 5) * 10 + b = 250 + b by omega] at hoctet

/-- An octet is written with digits only and fits into a byte. -/
theorem DecOctet.text {s : Bytes} {octet : ℕ} (h : DecOctet s octet) :
    char '.' ∉ s ∧ char ':' ∉ s ∧ octet < 256 := by
  obtain ⟨-,-,-,hdigits,-,hrange⟩ := parseOctet_cases (parseOctet_iff.mpr h)
  have hmarks : ∀ b, (char '0' ≤ b && b ≤ char '9') = true → b ≠ char '.' ∧ b ≠ char ':' := by
    intro b hb
    obtain ⟨a,ha,rfl,-⟩ := digitByte_of_digit b hb
    exact (digitByte_digit a ha).2.2
  rw [List.all_eq_true] at hdigits
  exact ⟨fun hdot => (hmarks _ (hdigits _ hdot)).1 rfl,fun hcolon => (hmarks _ (hdigits _ hcolon)).2 rfl,
    by omega⟩

theorem parseOctets_iff {n : ℕ} {s : Bytes} {octets : List ℕ} :
    parseOctets (n + 1) s = some octets ↔ DottedOctets s octets ∧ octets.length = n + 1 := by
  induction n generalizing s octets with
  | zero =>
    constructor
    · intro h
      unfold parseOctets at h
      split at h
      · split at h
        · cases h
        · rename_i octet hoctet
          obtain rfl := Option.some.inj h
          exact ⟨.last (parseOctet_iff.mp hoctet),rfl⟩
      · split at h <;> simp at h
    · rintro ⟨h,hlength⟩
      cases h with
      | last h =>
        simp only [parseOctets,find_eq_none_iff.mpr h.text.1,parseOctet_iff.mpr h,if_true]
      | cons h ht => cases ht <;> simp at hlength
  | succ n ih =>
    constructor
    · intro h
      unfold parseOctets at h
      split at h
      · split at h <;> simp at h
      · rename_i stop hstop
        split at h
        · cases h
        · rename_i octet hoctet
          rw [if_neg (Nat.succ_ne_zero n),Option.map_eq_some_iff] at h
          obtain ⟨others,hothers,rfl⟩ := h
          obtain ⟨hdotted,hlength⟩ := ih.mp hothers
          rw [(find_split hstop).1]
          exact ⟨.cons (parseOctet_iff.mp hoctet) hdotted,by rw [List.length_cons,hlength]⟩
    · rintro ⟨h,hlength⟩
      cases h with
      | last h => simp at hlength
      | @cons s t octet octets h ht =>
        have hrest := ih.mpr ⟨ht,by simpa using hlength⟩
        rw [parseOctets,find_append t h.text.1]
        simp only [List.take_left,parseOctet_iff.mpr h,if_neg (Nat.succ_ne_zero n),drop_cons_append,hrest,
          Option.map_some]

theorem parseIpv4_iff {s : Bytes} {octets : List ℕ} : parseIpv4 s = some octets ↔ Ipv4Text s octets :=
  parseOctets_iff

theorem DottedOctets.text {s : Bytes} {octets : List ℕ} (h : DottedOctets s octets) :
    s ≠ [] ∧ char ':' ∉ s ∧ (1 < octets.length → char '.' ∈ s) ∧ ∀ octet ∈ octets, octet < 256 := by
  induction h with
  | last h =>
    refine ⟨(parseOctet_cases (parseOctet_iff.mpr h)).1,h.text.2.1,by simp,?_⟩
    intro octet hoctet
    rw [List.mem_singleton.mp hoctet]
    exact h.text.2.2
  | cons h ht ih =>
    refine ⟨by simp,?_,by simp,?_⟩
    · rw [List.mem_append,List.mem_cons]
      rintro (hcolon | hcolon | hcolon)
      · exact h.text.2.1 hcolon
      · exact absurd hcolon (by decide)
      · exact ih.2.1 hcolon
    · intro octet hoctet
      rcases List.mem_cons.mp hoctet with rfl | hoctet
      · exact h.text.2.2
      · exact ih.2.2.2 octet hoctet

/-- The four octets of an IPv4 address, which holds a dot and no colon. -/
theorem Ipv4Text.text {s : Bytes} {octets : List ℕ} (h : Ipv4Text s octets) :
    s ≠ [] ∧ char ':' ∉ s ∧ char '.' ∈ s ∧ ∀ octet ∈ octets, octet < 256 := by
  obtain ⟨hne,hcolon,hdot,hoctets⟩ := h.1.text
  exact ⟨hne,hcolon,hdot (by rw [h.2]; omega),hoctets⟩

theorem isDigit_iff {base : ℕ} {b : Byte} : isDigit base b = true ↔ ∃ v, digitValue b = some v ∧ v < base := by
  unfold isDigit
  cases digitValue b <;> simp

/-- The loop of `parse_ipv6_word` computes the numeral as long as it stays within sixteen bits. -/
theorem foldlM_nibbles (value : Bytes) : ∀ (k start word : ℕ), start < 16 ^ k → k + value.length ≤ 4 →
    (value.foldlM (fun word digit => (digitValue digit).map fun nibble => (word * 16 + nibble) % 2 ^ 16) start =
      some word ↔ value.all (isDigit 16) = true ∧
        word = value.foldl (fun word digit => word * 16 + (digitValue digit).getD 0) start) := by
  induction value with
  | nil =>
    intro k start word _ _
    simp [eq_comm]
  | cons digit value ih =>
    intro k start word hstart hlength
    rw [List.length_cons] at hlength
    rw [List.foldlM_cons,List.all_cons,List.foldl_cons,Bool.and_eq_true,isDigit_iff]
    cases hdigit : digitValue digit with
    | none => simp
    | some nibble =>
      have hnibble : nibble < 16 := by
        exact digitValue_lt hdigit
      have hpow : 16 ^ (k + 1) ≤ 16 ^ 4 := Nat.pow_le_pow_right (by omega) (by omega)
      have hnext : start * 16 + nibble < 16 ^ (k + 1) := by
        rw [pow_succ]
        omega
      have hmod : (start * 16 + nibble) % 2 ^ 16 = start * 16 + nibble := Nat.mod_eq_of_lt (by omega)
      simp only [Option.map_some,Option.getD_some]
      rw [hmod]
      have hrest := ih (k + 1) (start * 16 + nibble) word hnext (by omega)
      simpa [hnibble] using hrest

theorem parseIpv6Word_iff {s : Bytes} {word : ℕ} : parseIpv6Word s = some word ↔ H16 s word := by
  unfold parseIpv6Word
  split
  · rename_i hshape
    constructor
    · intro h
      cases h
    · intro h
      rcases hshape with hempty | hlong
      · exact absurd hempty h.nonempty
      · exact absurd h.short (by omega)
  · rename_i hshape
    push Not at hshape
    rw [foldlM_nibbles s 0 0 word (by simp) (by omega)]
    exact ⟨fun h => ⟨hshape.1,hshape.2,h.1,h.2⟩,fun h => ⟨h.digits,h.value⟩⟩

theorem H16.text {s : Bytes} {word : ℕ} (h : H16 s word) : char '.' ∉ s ∧ char ':' ∉ s ∧ word < 2 ^ 16 := by
  have hmark {c : Byte} (hc : isDigit 16 c = false) : c ∉ s := by
    intro hmem
    have := List.all_eq_true.mp h.digits c hmem
    rw [hc] at this
    cases this
  refine ⟨hmark (by decide),hmark (by decide),?_⟩
  have hnumeral (t : Bytes) : numeral 16 t < 16 ^ t.length := by
    induction t using List.reverseRecOn with
    | nil => simp [numeral]
    | append_singleton t b ih =>
      have hlast : (digitValue b).getD 0 < 16 := by
        cases hvalue : digitValue b with
        | none => decide
        | some v => exact digitValue_lt hvalue
      have hstep : numeral 16 (t ++ [b]) = numeral 16 t * 16 + (digitValue b).getD 0 := by simp [numeral]
      rw [hstep,List.length_append,List.length_singleton,pow_succ]
      omega
  calc word = numeral 16 s := h.value
    _ < 16 ^ s.length := hnumeral s
    _ ≤ 16 ^ 4 := Nat.pow_le_pow_right (by omega) h.short
    _ = 2 ^ 16 := by norm_num

theorem Ipv6Groups.words_lt {tail : Bool} {s : Bytes} {words : List ℕ} (h : Ipv6Groups tail s words) :
    ∀ word ∈ words, word < 2 ^ 16 := by
  induction h with
  | last h =>
    intro word hword
    rw [List.mem_singleton.mp hword]
    exact h.text.2.2
  | ipv4 _ h =>
    obtain ⟨-,-,-,hoctets⟩ := h.text
    simp only [List.forall_mem_cons,List.not_mem_nil,false_imp_iff,implies_true,and_true] at hoctets
    simp only [List.forall_mem_cons,List.not_mem_nil,false_imp_iff,implies_true,and_true]
    omega
  | cons h _ ih =>
    intro word hword
    rcases List.mem_cons.mp hword with rfl | hword
    · exact h.text.2.2
    · exact ih word hword

theorem Ipv6Side.words_lt {tail : Bool} {s : Bytes} {words : List ℕ} (h : Ipv6Side tail s words) :
    ∀ word ∈ words, word < 2 ^ 16 := by
  cases h with
  | empty => simp
  | groups h => exact h.words_lt

/-- The loop of `append_ipv6_words` reads a run of groups into what is left of the array. -/
theorem appendIpv6WordsLoop_sound (tail : Bool) (words : List ℕ) (rest : Bytes) (hroom : words.length ≤ 8) :
    ∀ result, appendIpv6WordsLoop tail words rest = some result →
      ∃ more, Ipv6Groups tail rest more ∧ result = words ++ more ∧ result.length ≤ 8 := by
  fun_induction appendIpv6WordsLoop tail words rest with
  | case2 words rest _ _ htail a b c d hparsed hcount =>
    intro result h
    obtain rfl := Option.some.inj h
    refine ⟨_,.ipv4 htail (parseIpv4_iff.mp hparsed),rfl,?_⟩
    simp only [ipv6WordCount] at hcount
    simp only [List.length_append,List.length_cons,List.length_nil]
    omega
  | case7 words rest _ _ word hword hcount =>
    intro result h
    obtain rfl := Option.some.inj h
    refine ⟨_,.last (parseIpv6Word_iff.mp hword),rfl,?_⟩
    simp only [ipv6WordCount] at hcount
    simp only [List.length_append,List.length_cons,List.length_nil]
    omega
  | case11 words rest stop hstop _ word hword hcount ih =>
    intro result h
    have hroom' : (words ++ [word]).length ≤ 8 := by
      simp only [ipv6WordCount] at hcount
      simp only [List.length_append,List.length_cons,List.length_nil]
      omega
    obtain ⟨more,hmore,rfl,hlength⟩ := ih hroom' result h
    refine ⟨word :: more,?_,by simp,hlength⟩
    rw [(find_split hstop).1]
    exact .cons (parseIpv6Word_iff.mp hword) hmore
  | _ => simp

theorem appendIpv6WordsLoop_complete {tail : Bool} {rest : Bytes} {more : List ℕ} (h : Ipv6Groups tail rest more) :
    ∀ words : List ℕ, words.length + more.length ≤ 8 →
      appendIpv6WordsLoop tail words rest = some (words ++ more) := by
  induction h with
  | @last s word h =>
    intro words hroom
    have hcount : words.length ≠ ipv6WordCount := by
      simp only [List.length_singleton] at hroom
      simp only [ipv6WordCount]
      omega
    unfold appendIpv6WordsLoop
    split
    · simp [h.text.1,parseIpv6Word_iff.mpr h,hcount]
    · rename_i stop hstop
      rw [find_eq_none_iff.mpr h.text.2.1] at hstop
      cases hstop
  | @ipv4 s a b c d htail h =>
    intro words hroom
    have hcount : ¬ipv6WordCount - 2 < words.length := by
      simp only [List.length_cons,List.length_nil] at hroom
      simp only [ipv6WordCount]
      omega
    unfold appendIpv6WordsLoop
    split
    · simp [h.text.2.2.1,htail,parseIpv4_iff.mpr h,hcount]
    · rename_i stop hstop
      rw [find_eq_none_iff.mpr h.text.2.1] at hstop
      cases hstop
  | @cons s t word more h ht ih =>
    intro words hroom
    rw [List.length_cons] at hroom
    have hcount : words.length ≠ ipv6WordCount := by
      simp only [ipv6WordCount]
      omega
    have hrest := ih (words ++ [word]) (by simp only [List.length_append,List.length_singleton]; omega)
    unfold appendIpv6WordsLoop
    split
    · rename_i hnone
      rw [find_append t h.text.2.1] at hnone
      cases hnone
    · rename_i stop hstop
      rw [find_append t h.text.2.1] at hstop
      obtain rfl := Option.some.inj hstop
      rw [List.take_left,drop_cons_append]
      simp [h.text.1,parseIpv6Word_iff.mpr h,hcount,hrest]

theorem Ipv6Groups.ne_nil {tail : Bool} {s : Bytes} {words : List ℕ} (h : Ipv6Groups tail s words) : s ≠ [] := by
  cases h with
  | last h => exact h.nonempty
  | ipv4 _ h => exact h.text.1
  | cons h ht => simp

/-- Both sides of the marker are read this way; no words stand for an empty side. -/
theorem appendIpv6Words_iff {tail : Bool} {sequence : Bytes} {words : List ℕ} :
    appendIpv6Words sequence [] tail = some words ↔ Ipv6Side tail sequence words ∧ words.length ≤ 8 := by
  unfold appendIpv6Words
  split
  · rename_i hempty
    constructor
    · intro h
      obtain rfl := Option.some.inj h
      rw [hempty]
      exact ⟨.empty,by simp⟩
    · rintro ⟨h,-⟩
      cases h with
      | empty => rfl
      | groups h => exact absurd hempty h.ne_nil
  · rename_i hne
    constructor
    · intro h
      obtain ⟨more,hmore,rfl,hlength⟩ := appendIpv6WordsLoop_sound tail [] sequence (by simp) words h
      exact ⟨.groups hmore,hlength⟩
    · rintro ⟨h,hlength⟩
      cases h with
      | empty => exact absurd rfl hne
      | groups h => simpa using appendIpv6WordsLoop_complete h [] (by simpa using hlength)

/-- A text without the byte holds no part of a pair of it. -/
theorem findPair_append_of_not_mem {c : Byte} {s : Bytes} (h : c ∉ s) (t : Bytes) :
    findPair c c (s ++ t) = (findPair c c t).map (· + s.length) := by
  induction s with
  | nil => simp
  | cons x s ih =>
    obtain ⟨hx,hs⟩ : c ≠ x ∧ c ∉ s := by simpa using h
    have hrest := ih hs
    cases hst : s ++ t with
    | nil =>
      obtain ⟨rfl,rfl⟩ := List.append_eq_nil_iff.mp hst
      rfl
    | cons y rest =>
      rw [List.cons_append,hst,findPair,if_neg (fun hpair => hx hpair.1.symm),← hst,hrest,Option.map_map]
      apply congrArg (fun f => Option.map f (findPair c c t))
      funext i
      simp only [Function.comp_apply,List.length_cons]
      omega

theorem findPair_cons_of_head {c : Byte} {t : Bytes} (h : t.head? ≠ some c) :
    findPair c c (c :: t) = (findPair c c t).map (· + 1) := by
  cases t with
  | nil => rfl
  | cons y t => rw [findPair,if_neg (fun hpair => h (congrArg some hpair.2))]

theorem head_ne_of_not_mem {c : Byte} {s t : Bytes} (hne : s ≠ []) (h : c ∉ s) : (s ++ t).head? ≠ some c := by
  cases s with
  | nil => exact absurd rfl hne
  | cons x s =>
    intro hx
    obtain rfl := Option.some.inj hx
    simp at h

/-- Groups neither hold the marker nor touch a part of it. -/
theorem Ipv6Groups.findPair {tail : Bool} {s : Bytes} {words : List ℕ} (h : Ipv6Groups tail s words) (t : Bytes) :
    findPair (char ':') (char ':') (s ++ t) = (findPair (char ':') (char ':') t).map (· + s.length) ∧
      (s ++ t).head? ≠ some (char ':') := by
  induction h with
  | last h => exact ⟨findPair_append_of_not_mem h.text.2.1 t,head_ne_of_not_mem h.nonempty h.text.2.1⟩
  | ipv4 _ h => exact ⟨findPair_append_of_not_mem h.text.2.1 t,head_ne_of_not_mem h.text.1 h.text.2.1⟩
  | @cons s u word words h _ ih =>
    rw [List.append_assoc,List.cons_append]
    refine ⟨?_,head_ne_of_not_mem h.nonempty h.text.2.1⟩
    rw [findPair_append_of_not_mem h.text.2.1,findPair_cons_of_head ih.2,ih.1,Option.map_map,Option.map_map]
    apply congrArg (fun f => Option.map f (Ip.findPair (char ':') (char ':') t))
    funext i
    simp only [Function.comp_apply,List.length_append,List.length_cons]
    omega

theorem Ipv6Side.findPair {tail : Bool} {s : Bytes} {words : List ℕ} (h : Ipv6Side tail s words) (t : Bytes) :
    findPair (char ':') (char ':') (s ++ t) = (findPair (char ':') (char ':') t).map (· + s.length) := by
  cases h with
  | empty => simp
  | groups h => exact (h.findPair t).1

theorem Ipv6Side.findPair_none {tail : Bool} {s : Bytes} {words : List ℕ} (h : Ipv6Side tail s words) :
    Ip.findPair (char ':') (char ':') s = none := by
  simpa [Ip.findPair] using h.findPair []

theorem Ipv6Groups.colon {tail : Bool} {s : Bytes} {words : List ℕ} (h : Ipv6Groups tail s words)
    (hcount : 2 < words.length) : char ':' ∈ s := by
  cases h with
  | last h => simp at hcount
  | ipv4 _ h => simp at hcount
  | cons h ht => simp

theorem Ipv6Text.colon {s : Bytes} {words : List ℕ} (h : Ipv6Text s words) : char ':' ∈ s := by
  cases h with
  | full h hcount => exact h.colon (by omega)
  | compressed => simp

theorem parseIpv4_eq_none {s : Bytes} (h : char ':' ∈ s) : parseIpv4 s = none := by
  cases hparse : parseIpv4 s with
  | none => rfl
  | some octets => exact absurd h (parseIpv4_iff.mp hparse).text.2.1

theorem Ipv6Text.words {s : Bytes} {words : List ℕ} (h : Ipv6Text s words) :
    words.length = 8 ∧ ∀ word ∈ words, word < 2 ^ 16 := by
  cases h with
  | full h hcount => exact ⟨hcount,h.words_lt⟩
  | @compressed left right before after zeros hleft hright _ hcount =>
    refine ⟨by simpa [Nat.add_assoc] using hcount,?_⟩
    intro word hword
    rcases List.mem_append.mp hword with hword | hword
    · rcases List.mem_append.mp hword with hword | hword
      · exact hleft.words_lt word hword
      · rw [List.eq_of_mem_replicate hword]
        norm_num
    · exact hright.words_lt word hword

/-- What `parse_numeric_address` returns for the two kinds of text. -/
theorem parseNumericAddress_iff {s : Bytes} {result : NumericAddress} :
    parseNumericAddress s = some result ↔
      (∃ octets, Ipv4Text s octets ∧ result = ⟨octets ++ List.replicate 12 0,true⟩) ∨
        ∃ words, Ipv6Text s words ∧ result = ⟨storeWords words,false⟩ := by
  constructor
  · intro h
    unfold parseNumericAddress at h
    split at h
    · rename_i octets hoctets
      exact Or.inl ⟨octets,parseIpv4_iff.mp hoctets,(Option.some.inj h).symm⟩
    · right
      split at h
      · split at h
        · rename_i left hleft
          split at h
          · rename_i hcount
            have hcount : left.length = 8 := hcount
            refine ⟨left,?_,(Option.some.inj h).symm⟩
            cases (appendIpv6Words_iff.mp hleft).1 with
            | empty => simp at hcount
            | groups hgroups => exact .full hgroups hcount
          · cases h
        · cases h
      · rename_i compression hmarker
        split at h
        · cases h
        · split at h
          · rename_i left right hleft hright
            split at h
            · cases h
            · rename_i hcount
              have hcount : ¬8 ≤ left.length + right.length := hcount
              refine ⟨_,?_,(Option.some.inj h).symm⟩
              rw [findPair_split hmarker]
              exact .compressed (appendIpv6Words_iff.mp hleft).1 (appendIpv6Words_iff.mp hright).1
                (by simp only [ipv6WordCount]; omega) (by simp only [ipv6WordCount]; omega)
          · cases h
  · rintro (⟨octets,h,rfl⟩ | ⟨words,h,rfl⟩)
    · simp only [parseNumericAddress,parseIpv4_iff.mpr h]
    · have hipv4 := parseIpv4_eq_none h.colon
      cases h with
      | full h hcount =>
        have hread := appendIpv6Words_iff.mpr ⟨.groups h,hcount.le⟩
        have hmarker := Ipv6Side.findPair_none (.groups h)
        simp [parseNumericAddress,hipv4,hmarker,hread,hcount,ipv6WordCount]
      | @compressed left right before after zeros hleft hright hzeros hcount =>
        have hbefore := appendIpv6Words_iff.mpr ⟨hleft,by omega⟩
        have hafter := appendIpv6Words_iff.mpr ⟨hright,by omega⟩
        have hmarker : findPair (char ':') (char ':') (left ++ char ':' :: char ':' :: right) = some left.length := by
          simp [hleft.findPair,findPair]
        have hright' : (left ++ char ':' :: char ':' :: right).drop (left.length + 2) = right := by
          rw [← List.drop_drop,List.drop_left]
          rfl
        have hroom : ¬ipv6WordCount ≤ before.length + after.length := by
          simp only [ipv6WordCount]
          omega
        have hfill : ipv6WordCount - after.length - before.length = zeros := by
          simp only [ipv6WordCount]
          omega
        simp only [parseNumericAddress,hipv4,hmarker,hright',hright.findPair_none,List.take_left,hbefore,hafter,
          Option.isSome_none,Bool.false_eq_true,if_false,if_neg hroom,hfill]

/-- A text that denotes an address is parsed to its network order, and no other text is accepted. -/
theorem parseNumericAddress_denotes {s : Bytes} {result : NumericAddress} :
    parseNumericAddress s = some result ↔ ∃ address, Denotes s address ∧ result = address.network := by
  rw [parseNumericAddress_iff]
  constructor
  · rintro (⟨octets,h,rfl⟩ | ⟨words,h,rfl⟩)
    · obtain ⟨-,-,-,hoctets⟩ := h.text
      have hlt : bigEndian (2 ^ 8) octets < 2 ^ 32 := by
        have hbound : bigEndian (2 ^ 8) octets < (2 ^ 8) ^ octets.length := bigEndian_lt hoctets
        rw [h.2] at hbound
        exact hbound.trans_eq (by norm_num)
      have hbytes := networkBytes_bigEndian hoctets
      rw [h.2] at hbytes
      refine ⟨.v4 ⟨_,hlt⟩,.v4 h rfl,?_⟩
      rw [IpAddress.network,hbytes]
    · obtain ⟨hcount,hwords⟩ := h.words
      have hlt : bigEndian (2 ^ 16) words < 2 ^ 128 := by
        have hbound := bigEndian_lt hwords
        rw [hcount] at hbound
        exact hbound.trans_eq (by norm_num)
      have hbytes := storeWords_bigEndian hwords
      rw [hcount] at hbytes
      refine ⟨.v6 ⟨_,hlt⟩,.v6 h rfl,?_⟩
      rw [IpAddress.network,hbytes]
  · rintro ⟨address,h,rfl⟩
    cases h with
    | v4 h hvalue =>
      have hbytes := networkBytes_bigEndian h.text.2.2.2
      rw [h.2,← hvalue] at hbytes
      exact Or.inl ⟨_,h,by rw [IpAddress.network,hbytes]⟩
    | v6 h hvalue =>
      obtain ⟨hcount,hwords⟩ := h.words
      have hbytes := storeWords_bigEndian hwords
      rw [hcount,← hvalue] at hbytes
      exact Or.inr ⟨_,h,by rw [IpAddress.network,hbytes]⟩

end SpareNode.Ip
