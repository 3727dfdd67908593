import SpareNode.Authentication.LoginJson
import SpareNode.Foundation.JsonUnambiguous

/-! # The strings of a login request

`parse_string` reads the strings of the grammar, with any bytes from 0x20 on standing for themselves, and decodes
them within the room that it has reserved.
-/
namespace SpareNode.Authentication
open Json Utf8

namespace ReservedText
variable {text : ReservedText}

theorem pushBack_bytes (b : Byte) : (text.pushBack b).bytes = text.bytes ++ [b] := by
  unfold pushBack
  split <;> rfl

theorem append_cons (b : Byte) (s : Bytes) : text.append (b :: s) = (text.pushBack b).append s := rfl

theorem append_append (s t : Bytes) : text.append (s ++ t) = (text.append s).append t := List.foldl_append

theorem append_bytes (s : Bytes) : (text.append s).bytes = text.bytes ++ s := by
  induction s generalizing text with
  | nil => exact (List.append_nil _).symm
  | cons b s ih => rw [append_cons,ih,pushBack_bytes,List.append_assoc,List.singleton_append]

/-- The text stands where it was reserved, and there is room for some more bytes. -/
structure Fits (reserved : ℕ) (text : ReservedText) (more : ℕ) : Prop where
  room : text.bytes.length + more ≤ reserved
  capacity : text.capacity = reserved
  unmoved : text.abandoned = []

variable {reserved : ℕ}

theorem Fits.mono {m n : ℕ} (h : Fits reserved text m) (hn : n ≤ m) : Fits reserved text n :=
  ⟨(Nat.add_le_add_left hn _).trans h.room,h.capacity,h.unmoved⟩

theorem Fits.pushBack {n : ℕ} (h : Fits reserved text (n + 1)) (b : Byte) : Fits reserved (text.pushBack b) n := by
  have hroom := h.room
  have hcapacity := h.capacity
  have hpush : text.pushBack b = { text with bytes := text.bytes ++ [b] } := by
    rw [ReservedText.pushBack,if_pos (by omega)]
  rw [hpush]
  refine ⟨?_,h.capacity,h.unmoved⟩
  simp only [List.length_append,List.length_singleton]
  omega

theorem Fits.append {n : ℕ} {s : Bytes} (h : Fits reserved text (s.length + n)) : Fits reserved (text.append s) n := by
  induction s generalizing text with
  | nil =>
    rw [List.length_nil,Nat.zero_add] at h
    exact h
  | cons b s ih =>
    rw [List.length_cons,Nat.add_right_comm] at h
    exact ih (h.pushBack b)

theorem Fits.erase {n : ℕ} (h : Fits reserved text n) : Fits reserved text.erase n := by
  refine ⟨?_,h.capacity,h.unmoved⟩
  have hroom := h.room
  simpa only [ReservedText.erase,List.length_map] using hroom

theorem appendCodePoint_scalar (v : Scalar) : text.appendCodePoint v.val = (text.append (encode v),true) := by
  rw [appendCodePoint,if_pos v.property]
  rfl
end ReservedText

namespace LoginJsonParser

theorem isDigit_sixteen {b : Byte} : isDigit 16 b = true ↔ ∃ v, digitValue b = some v := by
  unfold isDigit
  cases hv : digitValue b with
  | none => simp
  | some v => simpa using digitValue_lt hv

theorem parseHexDigits_iff {count codePoint value : ℕ} {s rest : Bytes} :
    parseHexDigits count codePoint s = some (value,rest) ↔ ∃ digits, digits.length = count ∧
      digits.all (isDigit 16) = true ∧ s = digits ++ rest ∧
      digits.foldl (fun value b => value * 16 + (digitValue b).getD 0) codePoint = value := by
  induction count generalizing codePoint s with
  | zero =>
    simp only [parseHexDigits,Option.some.injEq,Prod.mk.injEq]
    constructor
    · rintro ⟨rfl,rfl⟩
      exact ⟨[],rfl,rfl,rfl,rfl⟩
    · rintro ⟨digits,hlength,-,rfl,rfl⟩
      rw [List.length_eq_zero_iff.mp hlength]
      exact ⟨rfl,rfl⟩
  | succ count ih =>
    cases s with
    | nil =>
      constructor
      · intro h
        cases h
      · rintro ⟨digits,hlength,-,hs,-⟩
        rw [(List.append_eq_nil_iff.mp hs.symm).1] at hlength
        cases hlength
    | cons b s =>
      rw [parseHexDigits]
      cases hdigit : digitValue b with
      | none =>
        constructor
        · intro h
          cases h
        · rintro ⟨digits,hlength,hall,hs,-⟩
          cases digits with
          | nil => cases hlength
          | cons b' digits =>
            obtain ⟨rfl,-⟩ := List.cons.inj hs
            obtain ⟨v,hv⟩ := isDigit_sixteen.mp (List.all_eq_true.mp hall b List.mem_cons_self)
            rw [hdigit] at hv
            cases hv
      | some v =>
        have hshift : codePoint <<< 4 ||| v = codePoint * 16 + v := by
          rw [← Nat.shiftLeft_add_eq_or_of_lt (digitValue_lt hdigit),Nat.shiftLeft_eq]
        dsimp only
        rw [ih,hshift]
        constructor
        · rintro ⟨digits,rfl,hall,rfl,hvalue⟩
          refine ⟨b :: digits,rfl,?_,rfl,?_⟩
          · rw [List.all_cons,hall,isDigit_sixteen.mpr ⟨v,hdigit⟩]
            rfl
          · rw [List.foldl_cons,hdigit]
            exact hvalue
        · rintro ⟨digits,hlength,hall,hs,hvalue⟩
          cases digits with
          | nil => cases hlength
          | cons b' digits =>
            obtain ⟨rfl,rfl⟩ := List.cons.inj hs
            rw [List.all_cons,Bool.and_eq_true] at hall
            rw [List.foldl_cons,hdigit] at hvalue
            exact ⟨digits,Nat.succ.inj hlength,hall.2,rfl,hvalue⟩

theorem parseHexQuad_iff {s rest : Bytes} {value : ℕ} : parseHexQuad s = some (value,rest) ↔
    ∃ quad, HexQuad quad value ∧ s = quad ++ rest := by
  unfold parseHexQuad
  split
  · rename_i hshort
    constructor
    · nofun
    · rintro ⟨quad,hquad,rfl⟩
      rw [List.length_append,hquad.length] at hshort
      omega
  · rw [parseHexDigits_iff]
    constructor
    · rintro ⟨digits,hlength,hall,hs,hvalue⟩
      exact ⟨digits,⟨hlength,hall,hvalue⟩,hs⟩
    · rintro ⟨quad,hquad,hs⟩
      exact ⟨quad,hquad.length,hquad.digits,hs,hquad.value⟩

theorem parseHexQuad_append {quad t : Bytes} {value : ℕ} (h : HexQuad quad value) :
    parseHexQuad (quad ++ t) = some (value,t) :=
  parseHexQuad_iff.mpr ⟨quad,h,rfl⟩

theorem foldl_hex_lt (digits : Bytes) (value : ℕ) :
    digits.foldl (fun value b => value * 16 + (digitValue b).getD 0) value < (value + 1) * 16 ^ digits.length := by
  induction digits generalizing value with
  | nil => simp
  | cons b digits ih =>
    have hb : (digitValue b).getD 0 < 16 := by
      cases hv : digitValue b with
      | none => decide
      | some v => exact digitValue_lt hv
    rw [List.foldl_cons,List.length_cons,pow_succ']
    apply (ih _).trans_le
    rw [← Nat.mul_assoc]
    exact Nat.mul_le_mul_right _ (by omega)

theorem hexQuad_lt {quad : Bytes} {value : ℕ} (h : HexQuad quad value) : value < 0x10000 := by
  have hlt := foldl_hex_lt quad 0
  rw [h.length] at hlt
  rw [← h.value]
  exact hlt

theorem parseLowSurrogate_iff {codePoint value : ℕ} {s rest : Bytes} :
    parseLowSurrogate codePoint s = some (value,rest) ↔ ∃ low y, y < 0x400 ∧ HexQuad low (0xDC00 + y) ∧
      s = char '\\' :: char 'u' :: (low ++ rest) ∧ value = 0x10000 + (codePoint - 0xD800) * 0x400 + y := by
  have hshift : (codePoint - 0xD800) <<< 10 = (codePoint - 0xD800) * 0x400 := Nat.shiftLeft_eq _ 10
  simp only [parseLowSurrogate,Option.bind_eq_bind,Option.bind_eq_some_iff,consume_eq_some,Prod.exists,parseHexQuad_iff,
    hshift]
  constructor
  · rintro ⟨s₁,rfl,s₂,rfl,low,s₃,⟨quad,hquad,rfl⟩,h⟩
    split at h
    · cases h
    · rename_i hrange
      simp only [Bool.or_eq_true,decide_eq_true_eq,not_or,not_lt] at hrange
      obtain ⟨rfl,rfl⟩ := Prod.mk.inj (Option.some.inj h)
      refine ⟨quad,low - 0xDC00,by omega,?_,rfl,rfl⟩
      rwa [Nat.add_sub_cancel' hrange.1]
  · rintro ⟨low,y,hy,hlow,rfl,rfl⟩
    refine ⟨_,rfl,_,rfl,_,_,⟨low,hlow,rfl⟩,?_⟩
    rw [if_neg (by simp only [Bool.or_eq_true,decide_eq_true_eq]; omega),Nat.add_sub_cancel_left]

theorem parseUnicodeEscape_scalar {s rest : Bytes} {value : ℕ} (h : parseUnicodeEscape s = some (value,rest)) :
    isScalarValue value = true := by
  unfold parseUnicodeEscape at h
  simp only [isScalarValue,Bool.and_eq_true,Bool.or_eq_true,decide_eq_true_eq]
  split at h
  · cases h
  · rename_i codePoint middle hquad
    obtain ⟨quad,hquad,-⟩ := parseHexQuad_iff.mp hquad
    have hlt := hexQuad_lt hquad
    split at h
    · rename_i hhigh
      obtain ⟨low,y,hy,-,-,rfl⟩ := parseLowSurrogate_iff.mp h
      omega
    · split at h
      · cases h
      · obtain ⟨rfl,-⟩ := Prod.mk.inj (Option.some.inj h)
        omega

/-- A unicode escape is one that stands for a character, alone or as a surrogate pair. -/
theorem parseUnicodeEscape_iff {s piece rest : Bytes} :
    (∃ v : Scalar, parseUnicodeEscape s = some (v.val,rest) ∧ piece = encode v) ↔
      ∃ quad value middle, HexQuad quad value ∧ s = quad ++ middle ∧ Completed value middle piece rest := by
  constructor
  · rintro ⟨v,h,rfl⟩
    unfold parseUnicodeEscape at h
    split at h
    · cases h
    · rename_i codePoint middle hquad
      obtain ⟨quad,hdigits,rfl⟩ := parseHexQuad_iff.mp hquad
      refine ⟨quad,codePoint,middle,hdigits,rfl,?_⟩
      split at h
      · rename_i hhigh
        obtain ⟨low,y,hy,hlow,rfl,hv⟩ := parseLowSurrogate_iff.mp h
        have hpair := Completed.pair (t := rest) v (show codePoint - 0xD800 < 0x400 by omega) hy hv hlow
        rwa [Nat.add_sub_cancel' hhigh.1] at hpair
      · split at h
        · cases h
        · obtain ⟨rfl,rfl⟩ := Prod.mk.inj (Option.some.inj h)
          exact .unit v
  · rintro ⟨quad,value,middle,hquad,rfl,hcompleted⟩
    unfold parseUnicodeEscape
    rw [parseHexQuad_append hquad]
    dsimp only
    cases hcompleted with
    | unit v =>
      have hv := v.property
      simp only [isScalarValue,Bool.and_eq_true,Bool.or_eq_true,decide_eq_true_eq] at hv
      refine ⟨v,?_,rfl⟩
      rw [if_neg (by omega),if_neg (by omega)]
    | @pair low t x y v hx hy hv hlow =>
      refine ⟨v,?_,rfl⟩
      rw [if_pos (by omega)]
      refine parseLowSurrogate_iff.mpr ⟨low,y,hy,hlow,rfl,?_⟩
      rw [Nat.add_sub_cancel_left]
      exact hv

theorem simpleEscapes_find {letter b : Byte} : (letter,b) ∈ shortEscapes ↔
    simpleEscapes.find? (fun mapping => mapping.1 = letter) = some (letter,b) := by
  constructor
  · intro h
    have hall : shortEscapes.all (fun entry =>
        simpleEscapes.find? (fun mapping => mapping.1 = entry.1) == some entry) = true := by decide
    exact beq_iff_eq.mp (List.all_eq_true.mp hall _ h)
  · exact fun h => List.mem_of_find?_eq_some h

theorem appendEscape_iff {output output' : ReservedText} {s rest : Bytes} :
    appendEscape output s = (output',some rest) ↔
      ∃ piece, Item Plain (char '\\' :: s) piece rest ∧ output' = output.append piece := by
  have hletter : simpleEscapes.find? (fun mapping => mapping.1 = char 'u') = none := by decide
  constructor
  · intro h
    cases s with
    | nil => cases h
    | cons escaped s =>
      rw [appendEscape] at h
      split at h
      · rename_i mapping hmapping
        obtain ⟨rfl,hrest⟩ := Prod.mk.inj h
        obtain rfl := Option.some.inj hrest
        obtain ⟨letter,b⟩ := mapping
        obtain rfl : letter = escaped := by simpa using List.find?_some hmapping
        exact ⟨[b],.short (simpleEscapes_find.mpr hmapping),rfl⟩
      · split at h
        · cases h
        · rename_i hescaped
          rw [not_not.mp hescaped]
          split at h
          · cases h
          · rename_i codePoint middle hescape
            have hscalar := parseUnicodeEscape_scalar hescape
            rw [ReservedText.appendCodePoint_scalar ⟨codePoint,hscalar⟩] at h
            obtain ⟨rfl,hrest⟩ := Prod.mk.inj h
            obtain rfl := Option.some.inj hrest
            obtain ⟨quad,value,after,hquad,rfl,hcompleted⟩ :=
              parseUnicodeEscape_iff.mp ⟨⟨codePoint,hscalar⟩,hescape,rfl⟩
            exact ⟨_,item_plain_iff.mpr (Or.inr (Or.inr ⟨quad,value,after,hquad,rfl,hcompleted⟩)),rfl⟩
  · rintro ⟨piece,hitem,rfl⟩
    rcases item_plain_iff.mp hitem with ⟨b,hb,hs,-⟩ | ⟨letter,b,hmem,hs,rfl⟩ | ⟨quad,value,middle,hquad,hs,hcompleted⟩
    · rw [← (List.cons.inj hs).1,isPlain_not.2] at hb
      cases hb
    · rw [(List.cons.inj hs).2,appendEscape,simpleEscapes_find.mp hmem]
      rfl
    · obtain ⟨v,hescape,rfl⟩ := parseUnicodeEscape_iff.mpr ⟨quad,value,middle,hquad,rfl,hcompleted⟩
      rw [(List.cons.inj hs).2,appendEscape,hletter]
      dsimp only
      rw [if_neg (not_not.mpr rfl),hescape]
      dsimp only
      rw [ReservedText.appendCodePoint_scalar]

theorem chars_nil {text rest : Bytes} (h : Chars Plain [] text rest) : False := by
  generalize hs : ([] : Bytes) = s at h
  cases h with
  | close => cases hs
  | cons hitem =>
    rw [← hs] at hitem
    rcases item_plain_iff.mp hitem with ⟨_,_,h,_⟩ | ⟨_,_,_,h,_⟩ | ⟨_,_,_,_,h,_⟩ <;> cases h

/-- A string that does not end here goes on with a character. -/
theorem chars_cons {b : Byte} {s text rest : Bytes} (hb : b ≠ char '"') (h : Chars Plain (b :: s) text rest) :
    ∃ piece u more, Item Plain (b :: s) piece u ∧ Chars Plain u more rest ∧ text = piece ++ more := by
  cases h with
  | close => exact absurd rfl hb
  | cons hitem h => exact ⟨_,_,_,hitem,h,rfl⟩

theorem parseStringLoop_iff {output output' : ReservedText} {s rest : Bytes} :
    parseStringLoop output s = (output',some rest) ↔ ∃ text, Chars Plain s text rest ∧ output' = output.append text := by
  fun_induction parseStringLoop output s with
  | case1 output =>
    constructor
    · intro h
      cases h
    · rintro ⟨text,h,-⟩
      exact (chars_nil h).elim
  | case2 output s =>
    constructor
    · intro h
      obtain ⟨rfl,hrest⟩ := Prod.mk.inj h
      obtain rfl := Option.some.inj hrest
      exact ⟨[],.close,rfl⟩
    · rintro ⟨text,h,rfl⟩
      obtain ⟨rfl,rfl⟩ := h.unique_plain .close
      rfl
  | case3 output b s hquote hcontrol =>
    refine ⟨fun h => absurd (Prod.mk.inj h).2 (by simp),?_⟩
    rintro ⟨text,h,-⟩
    obtain ⟨piece,u,more,hitem,-,-⟩ := chars_cons hquote h
    rcases item_plain_iff.mp hitem with ⟨b',hb,hs,-⟩ | ⟨_,_,_,hs,-⟩ | ⟨_,_,_,_,hs,-⟩
    · rw [← (List.cons.inj hs).1] at hb
      simp only [isPlain,Bool.and_eq_true,decide_eq_true_eq] at hb
      exact absurd hcontrol (UInt8.not_lt.mpr hb.1.1)
    · rw [(List.cons.inj hs).1] at hcontrol
      exact absurd hcontrol (by decide)
    · rw [(List.cons.inj hs).1] at hcontrol
      exact absurd hcontrol (by decide)
  | case4 output b s hquote hcontrol hbackslash ih =>
    have hplain : isPlain b = true := by
      simp only [isPlain,Bool.and_eq_true,decide_eq_true_eq]
      exact ⟨⟨UInt8.not_lt.mp hcontrol,hquote⟩,hbackslash⟩
    have hitem : Item Plain (b :: s) [b] s := item_plain_iff.mpr (Or.inl ⟨b,hplain,rfl,rfl⟩)
    rw [ih]
    constructor
    · rintro ⟨text,h,rfl⟩
      exact ⟨[b] ++ text,.cons hitem h,rfl⟩
    · rintro ⟨text,h,rfl⟩
      obtain ⟨piece,u,more,hitem',hmore,rfl⟩ := chars_cons hquote h
      obtain ⟨rfl,rfl⟩ := hitem.unique hitem'
      exact ⟨more,hmore,rfl⟩
  | case5 output b s hquote hcontrol hbackslash middle hescape =>
    refine ⟨fun h => absurd (Prod.mk.inj h).2 (by simp),?_⟩
    rintro ⟨text,h,-⟩
    obtain ⟨piece,u,more,hitem,-,-⟩ := chars_cons hquote h
    rw [not_not.mp hbackslash] at hitem
    rw [appendEscape_iff.mpr ⟨piece,hitem,rfl⟩] at hescape
    cases hescape
  | case6 output b s hquote hcontrol hbackslash middle after hescape ih =>
    obtain ⟨piece,hitem,rfl⟩ := appendEscape_iff.mp hescape
    rw [← not_not.mp hbackslash] at hitem
    rw [ih]
    constructor
    · rintro ⟨text,h,rfl⟩
      exact ⟨piece ++ text,.cons hitem h,(ReservedText.append_append _ _).symm⟩
    · rintro ⟨text,h,rfl⟩
      obtain ⟨piece',u,more,hitem',hmore,rfl⟩ := chars_cons hquote h
      obtain ⟨rfl,rfl⟩ := hitem.unique hitem'
      exact ⟨more,hmore,ReservedText.append_append _ _⟩

theorem readString_iff {s text rest : Bytes} : readString s = some (text,rest) ↔
    ∃ body, s = char '"' :: body ∧ Chars Plain body text rest := by
  unfold readString parseString
  cases hquote : consume (char '"') s with
  | none =>
    refine ⟨nofun,?_⟩
    rintro ⟨body,hs,-⟩
    rw [consume_eq_some.mpr hs] at hquote
    cases hquote
  | some body =>
    have hs := consume_eq_some.mp hquote
    dsimp only
    constructor
    · intro h
      split at h
      · cases h
      · rename_i output rest' hloop
        obtain ⟨rfl,rfl⟩ := Prod.mk.inj (Option.some.inj h)
        obtain ⟨text,hchars,rfl⟩ := parseStringLoop_iff.mp hloop
        refine ⟨body,hs,?_⟩
        rw [ReservedText.append_bytes,List.nil_append]
        exact hchars
    · rintro ⟨body',hs',hchars⟩
      obtain ⟨-,rfl⟩ := List.cons.inj (hs.symm.trans hs')
      rw [parseStringLoop_iff.mpr ⟨text,hchars,rfl⟩]
      dsimp only
      rw [ReservedText.append_bytes,List.nil_append]

theorem encode_length_le (v : Scalar) : (encode v).length ≤ 4 := by
  unfold encode encodePoint
  split
  · simp
  · split
    · simp
    · split <;> simp

theorem item_length {s piece rest : Bytes} (h : Item Plain s piece rest) : piece.length + rest.length ≤ s.length := by
  rcases item_plain_iff.mp h with ⟨b,-,rfl,rfl⟩ | ⟨letter,b,-,rfl,rfl⟩ | ⟨quad,value,middle,hquad,rfl,hcompleted⟩
  · simp only [List.length_cons,List.length_nil]
    omega
  · simp only [List.length_cons,List.length_nil]
    omega
  · have hlength := hquad.length
    cases hcompleted with
    | unit v =>
      have hv := encode_length_le v
      simp only [List.length_cons,List.length_append]
      omega
    | pair v hx hy hv hlow =>
      have hv := encode_length_le v
      simp only [List.length_cons,List.length_append]
      omega

theorem appendEscape_rejected {output output' : ReservedText} {s : Bytes} (h : appendEscape output s = (output',none)) :
    output' = output := by
  cases s with
  | nil => exact (Prod.mk.inj h).1.symm
  | cons escaped s =>
    rw [appendEscape] at h
    split at h
    · cases h
    · split at h
      · exact (Prod.mk.inj h).1.symm
      · split at h
        · exact (Prod.mk.inj h).1.symm
        · rename_i codePoint middle hescape
          rw [ReservedText.appendCodePoint_scalar ⟨codePoint,parseUnicodeEscape_scalar hescape⟩] at h
          cases h

/-- As long as the rest of the input fits into the buffer, nothing is ever moved. -/
theorem parseStringLoop_fits {reserved : ℕ} {output : ReservedText} {s : Bytes}
    (h : ReservedText.Fits reserved output s.length) : ReservedText.Fits reserved (parseStringLoop output s).1 0 := by
  fun_induction parseStringLoop output s with
  | case1 => exact h.erase
  | case2 => exact h.mono (Nat.zero_le _)
  | case3 => exact (h.mono (Nat.zero_le _)).erase
  | case4 output b s _ _ _ ih => exact ih (h.pushBack b)
  | case5 output b s _ _ _ middle hescape =>
    rw [appendEscape_rejected hescape]
    exact (h.mono (Nat.zero_le _)).erase
  | case6 output b s _ _ hbackslash middle after hescape ih =>
    obtain ⟨piece,hitem,rfl⟩ := appendEscape_iff.mp hescape
    have hlength := item_length hitem
    rw [← not_not.mp hbackslash] at hlength
    exact ih (h.mono hlength).append

/-- The decoded text stays within the room that was reserved for it, whatever the input is. -/
theorem parseString_fits (s : Bytes) : ReservedText.Fits s.length (parseString (char '"' :: s)).1 0 := by
  unfold parseString
  rw [consume_eq_some.mpr rfl]
  exact parseStringLoop_fits ⟨(Nat.zero_add _).le,rfl,rfl⟩

end LoginJsonParser
end SpareNode.Authentication
