import SpareNode.Authentication.CredentialFile
import SpareNode.Configuration.StringLiterals

/-! # How a login is written

An escaped login spells that login exactly when it is well-formed UTF-8 without the
byte-order mark; otherwise no beginning of the written text up to a quote spells anything.
-/
namespace SpareNode.Authentication
open SpareNode.Configuration Utf8

def Loadable (s : Bytes) : Prop := isValid s = true ∧ ¬utf8ByteOrderMark <:+: s

section Scalars
variable {b : Byte} {s t : Bytes} {scalar : DecodedScalar}

theorem loadable_nil : Loadable [] := ⟨isValid_nil,by decide⟩

/-- A byte-order mark in well-formed text begins at a scalar. -/
theorem mark_infix_iff (h : decodeOne (b :: s) = some scalar) : utf8ByteOrderMark <:+: b :: s ↔
    (b :: s).take scalar.byteCount = utf8ByteOrderMark ∨
      utf8ByteOrderMark <:+: (b :: s).drop scalar.byteCount := by
  have hcount := decodeOne_byteCount h
  obtain ⟨k,hk⟩ : ∃ k, scalar.byteCount = k + 1 := ⟨scalar.byteCount - 1,by omega⟩
  have hcont := decodeOne_continuation h
  rw [← hasByteOrderMark_iff h,hasByteOrderMark,List.isPrefixOf_iff_prefix]
  rw [hk,Nat.add_sub_cancel] at hcont
  constructor
  · rintro ⟨p,q,heq⟩
    cases p with
    | nil => exact Or.inl ⟨q,heq⟩
    | cons x p =>
      right
      obtain ⟨rfl,htail⟩ := List.cons.inj heq
      have htail : p ++ (utf8ByteOrderMark ++ q) = s := (List.append_assoc ..).symm.trans htail
      rw [hk,List.drop_succ_cons]
      by_cases hlen : k ≤ p.length
      · refine ⟨p.drop k,q,?_⟩
        rw [← htail,List.append_assoc]
        exact (List.drop_append_of_le_length hlen).symm
      · -- The mark would begin with a continuation byte.
        exfalso
        have hmem : (0xEF : Byte) ∈ s.take k := by
          rw [← htail,List.take_append,List.take_of_length_le (by omega)]
          apply List.mem_append_right
          obtain ⟨j,hj⟩ : ∃ j, k - p.length = j + 1 := ⟨k - p.length - 1,by omega⟩
          rw [hj]
          simp [utf8ByteOrderMark]
        exact absurd (hcont 0xEF hmem) (by decide)
  · rintro (⟨q,hq⟩ | hinfix)
    · exact ⟨[],q,hq⟩
    · exact hinfix.trans (List.drop_suffix _ _).isInfix

theorem loadable_cons_iff (h : decodeOne (b :: s) = some scalar) : Loadable (b :: s) ↔
    (b :: s).take scalar.byteCount ≠ utf8ByteOrderMark ∧
      Loadable ((b :: s).drop scalar.byteCount) := by
  have hvalid : isValid (b :: s) = true ↔ isValid ((b :: s).drop scalar.byteCount) = true := by
    rw [isValid_cons_iff]
    constructor
    · rintro ⟨scalar',h',hrest⟩
      obtain rfl := Option.some.inj (h.symm.trans h')
      exact hrest
    · exact fun hrest => ⟨scalar,h,hrest⟩
  unfold Loadable
  rw [hvalid,mark_infix_iff h]
  tauto

theorem loadable_cons_ascii (hb : b < 0x80) : Loadable (b :: s) ↔ Loadable s := by
  rw [loadable_cons_iff (decodeOne_ascii hb)]
  constructor
  · exact fun h => h.2
  · refine fun h => ⟨?_,h⟩
    simp [utf8ByteOrderMark]

theorem loadable_of_ascii (h : ∀ b ∈ s, b < 0x80) : Loadable s := by
  induction s with
  | nil => exact loadable_nil
  | cons b s ih =>
    rw [loadable_cons_ascii (h b List.mem_cons_self)]
    exact ih (fun x hx => h x (List.mem_cons_of_mem b hx))

end Scalars

section Escaping
variable {b : Byte} {s t : Bytes}

/-- A byte that `escape_login` puts a backslash before. -/
def isEscaped (b : Byte) : Bool := b = char '\\' || b = char '"'

theorem escapeLogin_escaped (h : isEscaped b = true) :
    escapeLogin (b :: s) = char '\\' :: b :: escapeLogin s := by
  simp only [isEscaped] at h
  rw [escapeLogin,List.flatMap_cons,if_pos h]
  rfl

theorem escapeLogin_plain (h : isEscaped b = false) : escapeLogin (b :: s) = b :: escapeLogin s := by
  simp only [isEscaped] at h
  rw [escapeLogin,List.flatMap_cons,if_neg (by simp [h])]
  rfl

theorem escapeLogin_append (h : ∀ b ∈ s, isEscaped b = false) :
    escapeLogin (s ++ t) = s ++ escapeLogin t := by
  induction s with
  | nil => rfl
  | cons b s ih =>
    rw [List.cons_append,escapeLogin_plain (h b List.mem_cons_self),
      ih (fun x hx => h x (List.mem_cons_of_mem b hx)),List.cons_append]

theorem not_escaped_of_high (h : isHigh b = true) : isEscaped b = false := by
  have hall : ∀ b, isHigh b = true → isEscaped b = false := forall_byte (by decide +kernel)
  exact hall b h

/-- Escaping does not reach into a run of high bytes. -/
theorem takeWhile_escapeLogin (s t : Bytes) :
    (escapeLogin s ++ char '"' :: t).takeWhile isHigh = s.takeWhile isHigh := by
  induction s with
  | nil => rfl
  | cons b s ih =>
    cases hb : isHigh b with
    | true =>
      rw [escapeLogin_plain (not_escaped_of_high hb),List.cons_append]
      simp [hb,ih]
    | false =>
      cases he : isEscaped b with
      | true =>
        have hslash : isHigh (char '\\') = false := by decide
        rw [escapeLogin_escaped he]
        simp [hb,hslash]
      | false =>
        rw [escapeLogin_plain he]
        simp [hb]

theorem decodeOne_escapeLogin (b : Byte) (s t : Bytes) :
    decodeOne (b :: (escapeLogin s ++ char '"' :: t)) = decodeOne (b :: s) :=
  decodeOne_high b (takeWhile_escapeLogin s t)

/-- The bytes of a scalar that begins with no escaped byte are written as they are. -/
theorem escapeLogin_scalar {scalar : DecodedScalar} (hb : isEscaped b = false)
    (h : decodeOne (b :: s) = some scalar) :
    escapeLogin (b :: s) = (b :: s).take scalar.byteCount ++
      escapeLogin ((b :: s).drop scalar.byteCount) := by
  have hcount := decodeOne_byteCount h
  obtain ⟨k,hk⟩ : ∃ k, scalar.byteCount = k + 1 := ⟨scalar.byteCount - 1,by omega⟩
  have hcont := decodeOne_continuation h
  rw [hk,Nat.add_sub_cancel] at hcont
  have hplain : ∀ x ∈ (b :: s).take scalar.byteCount, isEscaped x = false := by
    intro x hx
    rw [hk,List.take_succ_cons] at hx
    rcases List.mem_cons.mp hx with rfl | hx
    · exact hb
    · exact not_escaped_of_high (decide_eq_true (isContinuation_range (hcont x hx)).1)
  calc escapeLogin (b :: s)
      = escapeLogin ((b :: s).take scalar.byteCount ++ (b :: s).drop scalar.byteCount) := by
        rw [List.take_append_drop]
    _ = _ := escapeLogin_append hplain

end Escaping

/-- No control byte that would end or break a string literal. -/
def Printable (s : Bytes) : Prop := ∀ b ∈ s, ¬b < 0x20

theorem spells_escapeLogin {s : Bytes} (hs : Printable s) (h : Loadable s) :
    Spells (escapeLogin s) s := by
  induction hn : s.length using Nat.strong_induction_on generalizing s with
  | _ n ih =>
    cases s with
    | nil => exact .nil
    | cons b s =>
      have hvalid := h.1
      obtain ⟨scalar,hd,-⟩ := isValid_cons_iff.mp hvalid
      have hcount := decodeOne_byteCount hd
      have hrest := (loadable_cons_iff hd).mp h
      cases he : isEscaped b with
      | true =>
        have hbyte : b = char '\\' ∨ b = char '"' := by simpa [isEscaped] using he
        have hascii : b < 0x80 := by rcases hbyte with rfl | rfl <;> decide
        have hchar : escapedCharacter b = some b := by rcases hbyte with rfl | rfl <;> decide
        rw [escapeLogin_escaped he]
        refine .escape hchar (ih s.length ?_ ?_ ((loadable_cons_ascii hascii).mp h) rfl)
        · rw [← hn,List.length_cons]
          omega
        · exact fun x hx => hs x (List.mem_cons_of_mem b hx)
      | false =>
        have hlen : ((b :: s).take scalar.byteCount).length = scalar.byteCount := by
          rw [List.length_take]
          omega
        have hplain : PlainScalar ((b :: s).take scalar.byteCount) := by
          refine ⟨⟨scalar.value,?_⟩,?_,hrest.1⟩
          · rw [hlen,← List.append_nil ((b :: s).take scalar.byteCount)]
            exact decodeOne_take hd []
          · intro y hy
            obtain ⟨k,hk⟩ : ∃ k, scalar.byteCount = k + 1 := ⟨scalar.byteCount - 1,by omega⟩
            rw [hk] at hy
            obtain rfl := Option.some.inj hy
            have hcontrol := hs b List.mem_cons_self
            have hquote : b ≠ char '\\' ∧ b ≠ char '"' := by simpa [isEscaped] using he
            refine ⟨?_,?_,?_,hquote.2,hquote.1⟩ <;> rintro rfl <;> exact hcontrol (by decide)
        rw [escapeLogin_scalar he hd]
        have hspells := ih ((b :: s).drop scalar.byteCount).length
          (by rw [← hn,List.length_drop]; omega)
          (fun x hx => hs x (List.mem_of_mem_drop hx)) hrest.2 rfl
        have hwhole := Spells.scalar hplain hspells
        rwa [List.take_append_drop] at hwhole

/-- A text that spells a value up to a quote, or to the end, is a loadable login. -/
theorem loadable_of_spells {raw value s t rest : Bytes} (h : Spells raw value)
    (heq : escapeLogin s ++ char '"' :: t = raw ++ rest)
    (hrest : rest = [] ∨ rest.head? = some (char '"')) : Loadable s := by
  induction h generalizing s with
  | nil =>
    cases s with
    | nil => exact loadable_nil
    | cons b s =>
      exfalso
      rw [List.nil_append] at heq
      have hhead : rest.head? = some (char '"') := by
        rcases hrest with rfl | hhead
        · simp at heq
        · exact hhead
      rw [← heq] at hhead
      cases he : isEscaped b with
      | true =>
        rw [escapeLogin_escaped he] at hhead
        exact absurd (Option.some.inj hhead) (by decide)
      | false =>
        rw [escapeLogin_plain he] at hhead
        rw [show b = char '"' from Option.some.inj hhead] at he
        exact absurd he (by decide)
  | @scalar x raw value hx _ ih =>
    obtain ⟨v,hv⟩ := decodeOne_plain hx (raw ++ rest)
    have hcount := decodeOne_byteCount hv
    cases x with
    | nil => simp at hcount
    | cons y x =>
      obtain ⟨-,-,-,hquote,hslash⟩ := hx.plain y rfl
      have hplain : isEscaped y = false := by simp [isEscaped,hquote,hslash]
      rw [List.append_assoc] at heq
      cases s with
      | nil => exact absurd (List.cons.inj heq).1.symm hquote
      | cons b s =>
        have hb : isEscaped b = false ∧ b = y := by
          cases he : isEscaped b with
          | true =>
            rw [escapeLogin_escaped he] at heq
            exact absurd (List.cons.inj heq).1.symm hslash
          | false =>
            rw [escapeLogin_plain he] at heq
            exact ⟨rfl,(List.cons.inj heq).1⟩
        obtain ⟨he,rfl⟩ := hb
        have hd : decodeOne (b :: s) = some ⟨v,(b :: x).length⟩ := by
          rw [← decodeOne_escapeLogin b s t,← hv,← heq,escapeLogin_plain he]
          rfl
        have hlen : ((b :: s).take (b :: x).length).length = (b :: x).length := by
          rw [List.length_take]
          have := (decodeOne_byteCount hd).2
          dsimp only at this
          omega
        rw [escapeLogin_scalar he hd,List.append_assoc] at heq
        obtain ⟨htake,htail⟩ := List.append_inj heq hlen
        rw [loadable_cons_iff hd]
        refine ⟨?_,ih htail⟩
        rw [htake]
        exact hx.mark
  | @escape b x raw value hb _ ih =>
    cases s with
    | nil => exact absurd (List.cons.inj heq).1 (by decide)
    | cons y s =>
      cases he : isEscaped y with
      | true =>
        have hascii : y < 0x80 := by
          have hbyte : y = char '\\' ∨ y = char '"' := by simpa [isEscaped] using he
          rcases hbyte with rfl | rfl <;> decide
        rw [escapeLogin_escaped he] at heq
        rw [loadable_cons_ascii hascii]
        exact ih (List.cons.inj (List.cons.inj heq).2).2
      | false =>
        rw [escapeLogin_plain he] at heq
        rw [show y = char '\\' from (List.cons.inj heq).1] at he
        exact absurd he (by decide)

end SpareNode.Authentication
