import SpareNode.Foundation.Utf8Encoding

/-! # Text that is safe to print

`append_safe_diagnostic` writes untrusted bytes to a terminal or a log line. It goes from scalar to
scalar and takes a byte by itself where none begins; scalars and bytes that control a terminal are
written in hexadecimal. What stays as it is stands next to what it stood next to before, so the
output spells no scalar that the input does not.
-/
namespace SpareNode.Text
open Utf8

/-- `DiagnosticEscapeStyle`. -/
inductive DiagnosticEscapeStyle where
  | path | log
deriving DecidableEq, Repr

def backslash : Byte := char '\\'
def tab : Byte := 9

def hexadecimalDigit (digit : Byte) : Byte := (ascii "0123456789ABCDEF").getD digit.toNat 0

def appendHexadecimalByte (byte : Byte) : Bytes :=
  ascii "\\x" ++ [hexadecimalDigit (byte >>> 4),hexadecimalDigit (byte &&& 0x0F)]

def appendScalarBytes (bytes : Bytes) (escape : Bool) : Bytes :=
  bytes.flatMap fun byte => if escape then appendHexadecimalByte byte else [byte]

def isC1Control (value : ℕ) : Bool := 0x80 ≤ value && value ≤ 0x9F

/-- What the loop appends for a byte that begins no longer scalar. -/
def appendByte (style : DiagnosticEscapeStyle) (byte : Byte) : Bytes :=
  if style = .log ∧ byte = backslash then ascii "\\\\"
  else if style = .log ∧ byte = lf then ascii "\\n"
  else if style = .log ∧ byte = cr then ascii "\\r"
  else if style = .log ∧ byte = tab then ascii "\\t"
  else if byte < 0x20 ∨ byte = 0x7F ∨ isC1Control byte.toNat = true then appendHexadecimalByte byte
  else [byte]

def appendSafeDiagnostic (style : DiagnosticEscapeStyle) (value : Bytes) : Bytes :=
  match value with
  | [] => []
  | byte :: rest =>
    match decodeOne (byte :: rest) with
    | none => appendByte style byte ++ appendSafeDiagnostic style rest
    | some scalar =>
      if 1 < scalar.byteCount then
        appendScalarBytes ((byte :: rest).take scalar.byteCount) (isC1Control scalar.value) ++
          appendSafeDiagnostic style ((byte :: rest).drop scalar.byteCount)
      else appendByte style byte ++ appendSafeDiagnostic style rest
termination_by value.length
decreasing_by
  all_goals
    simp only [List.length_drop,List.length_cons]
    omega

/-- No scalar of more than one byte begins with the byte. -/
def Lone (byte : Byte) (rest : Bytes) : Prop :=
  ∀ scalar, decodeOne (byte :: rest) = some scalar → scalar.byteCount ≤ 1

theorem encode_length_iff {v : Scalar} : 1 < (encode v).length ↔ 0x80 ≤ v.val := by
  constructor
  · intro h
    by_contra hascii
    rw [encode_of_ascii (not_le.mp hascii)] at h
    exact absurd h (by simp)
  · intro h
    unfold encode encodePoint
    rw [if_neg (not_lt.mpr h)]
    split
    · simp
    · split <;> simp

@[simp] theorem append_nil (style : DiagnosticEscapeStyle) : appendSafeDiagnostic style [] = [] := by
  rw [appendSafeDiagnostic]

theorem append_scalar (style : DiagnosticEscapeStyle) {v : Scalar} (hv : 0x80 ≤ v.val) (rest : Bytes) :
    appendSafeDiagnostic style (encode v ++ rest) =
      appendScalarBytes (encode v) (isC1Control v.val) ++ appendSafeDiagnostic style rest := by
  cases hbytes : encode v ++ rest with
  | nil => exact absurd (List.append_eq_nil_iff.mp hbytes).1 (encode_ne_nil v)
  | cons byte tail =>
    rw [appendSafeDiagnostic,← hbytes,decodeOne_encode]
    dsimp only
    rw [if_pos (encode_length_iff.mpr hv),List.take_left,List.drop_left]

theorem append_byte (style : DiagnosticEscapeStyle) {byte : Byte} {rest : Bytes} (h : Lone byte rest) :
    appendSafeDiagnostic style (byte :: rest) = appendByte style byte ++ appendSafeDiagnostic style rest := by
  rw [appendSafeDiagnostic]
  cases hscalar : decodeOne (byte :: rest) with
  | none => rfl
  | some scalar => exact if_neg (not_lt.mpr (h scalar hscalar))

/-- The loop takes a longer scalar or a single byte in each round. -/
theorem rounds {P : Bytes → Prop} (nil : P []) (scalar : ∀ v rest, 0x80 ≤ v.val → P rest → P (encode v ++ rest))
    (byte : ∀ b rest, Lone b rest → P rest → P (b :: rest)) (value : Bytes) : P value := by
  induction hn : value.length using Nat.strong_induction_on generalizing value with
  | _ n ih =>
    cases value with
    | nil => exact nil
    | cons b rest =>
      by_cases hlone : Lone b rest
      · exact byte b rest hlone (ih rest.length (by rw [← hn,List.length_cons]; omega) rest rfl)
      · unfold Lone at hlone
        push Not at hlone
        obtain ⟨found,hfound,hcount⟩ := hlone
        obtain ⟨v,tail,hsplit,rfl⟩ := decodeOne_iff.mp hfound
        rw [hsplit]
        refine scalar v tail (encode_length_iff.mp hcount) (ih tail.length ?_ tail rfl)
        rw [← hn,hsplit,List.length_append]
        dsimp only at hcount
        omega

/-- A byte is lone before a text when it is lone before all of it. -/
theorem Lone.take {b : Byte} {rest more : Bytes} (h : Lone b (rest ++ more)) : Lone b rest := by
  intro scalar hscalar
  have hcount := (decodeOne_byteCount hscalar).2
  apply h scalar
  have hread := decodeOne_take hscalar ((b :: rest).drop scalar.byteCount ++ more)
  rwa [← List.append_assoc,List.take_append_drop] at hread

def isEscapeByte (b : Byte) : Bool := 0x20 ≤ b && b < 0x7F

theorem hexadecimalDigit_escape (digit : Byte) (h : digit < 16) :
    isEscapeByte (hexadecimalDigit digit) = true ∧ digitValue (hexadecimalDigit digit) = some digit.toNat := by
  have hall : ∀ d : Fin 16, isEscapeByte (hexadecimalDigit (UInt8.ofNat d.val)) = true ∧
      digitValue (hexadecimalDigit (UInt8.ofNat d.val)) = some d.val := by decide
  have hdigit := hall ⟨digit.toNat,h⟩
  rwa [UInt8.ofNat_toNat] at hdigit

theorem high_digit (byte : Byte) : byte >>> 4 < 16 ∧ (byte >>> 4).toNat = byte.toNat / 16 := by
  have hlt := byte.toNat_lt
  have hvalue : (byte >>> 4).toNat = byte.toNat / 16 := by
    rw [UInt8.toNat_shiftRight,Nat.shiftRight_eq_div_pow]
    rfl
  refine ⟨UInt8.lt_iff_toNat_lt.mpr ?_,hvalue⟩
  rw [hvalue]
  exact Nat.div_lt_of_lt_mul hlt

theorem low_digit (byte : Byte) : byte &&& 0x0F < 16 ∧ (byte &&& 0x0F).toNat = byte.toNat % 16 := by
  have hvalue : (byte &&& 0x0F).toNat = byte.toNat % 16 := by
    rw [UInt8.toNat_and]
    exact Nat.and_two_pow_sub_one_eq_mod byte.toNat 4
  refine ⟨UInt8.lt_iff_toNat_lt.mpr ?_,hvalue⟩
  rw [hvalue]
  exact Nat.mod_lt _ (by decide)

/-- An escape is visible and begins with a backslash. -/
def IsEscape (text : Bytes) : Prop := text.head? = some backslash ∧ text.all isEscapeByte = true

theorem appendHexadecimalByte_escape (byte : Byte) : IsEscape (appendHexadecimalByte byte) := by
  have hhigh := (hexadecimalDigit_escape (byte >>> 4) (high_digit byte).1).1
  have hlow := (hexadecimalDigit_escape (byte &&& 0x0F) (low_digit byte).1).1
  refine ⟨rfl,?_⟩
  rw [appendHexadecimalByte,List.all_append,List.all_cons,List.all_cons,hhigh,hlow]
  rfl

theorem IsEscape.append {s t : Bytes} (hs : IsEscape s) (ht : t.all isEscapeByte = true) : IsEscape (s ++ t) := by
  refine ⟨?_,?_⟩
  · rw [List.head?_append,hs.1]
    rfl
  · rw [List.all_append,hs.2,ht]
    rfl

/-- A scalar is written as it is, or escaped when it is a C1 control. -/
theorem appendScalarBytes_cases (v : Scalar) :
    (isC1Control v.val = false ∧ appendScalarBytes (encode v) (isC1Control v.val) = encode v) ∨
    isC1Control v.val = true ∧ IsEscape (appendScalarBytes (encode v) (isC1Control v.val)) := by
  cases hcontrol : isC1Control v.val with
  | false =>
    refine .inl ⟨rfl,?_⟩
    exact List.flatMap_singleton' (encode v)
  | true =>
    refine .inr ⟨rfl,?_⟩
    have hall (s : Bytes) : (appendScalarBytes s true).all isEscapeByte = true := by
      rw [appendScalarBytes,List.all_flatMap,List.all_eq_true]
      intro b _
      exact (appendHexadecimalByte_escape b).2
    cases hbytes : encode v with
    | nil => exact absurd hbytes (encode_ne_nil v)
    | cons b s => exact (appendHexadecimalByte_escape b).append (hall s)

def Plain (style : DiagnosticEscapeStyle) (b : Byte) : Prop :=
  0x20 ≤ b ∧ b ≠ 0x7F ∧ isC1Control b.toNat = false ∧ (style = .log → b ≠ backslash)

theorem appendByte_cases (style : DiagnosticEscapeStyle) (b : Byte) :
    (Plain style b ∧ appendByte style b = [b]) ∨ IsEscape (appendByte style b) := by
  unfold appendByte
  split
  · exact .inr ⟨rfl,by decide⟩
  · rename_i hbackslash
    split
    · exact .inr ⟨rfl,by decide⟩
    · split
      · exact .inr ⟨rfl,by decide⟩
      · split
        · exact .inr ⟨rfl,by decide⟩
        · split
          · exact .inr (appendHexadecimalByte_escape b)
          · rename_i hvisible
            rw [not_or,not_or,Bool.not_eq_true] at hvisible
            refine .inl ⟨⟨UInt8.not_lt.mp hvisible.1,hvisible.2.1,hvisible.2.2,?_⟩,rfl⟩
            intro hlog hb
            exact hbackslash ⟨hlog,hb⟩

theorem isEscapeByte_range {b : Byte} (h : isEscapeByte b = true) : 0x20 ≤ b ∧ b < 0x7F := by
  simpa [isEscapeByte] using h

theorem visible (style : DiagnosticEscapeStyle) (value : Bytes) :
    ∀ b ∈ appendSafeDiagnostic style value, 0x20 ≤ b ∧ b ≠ 0x7F := by
  have hescape {text : Bytes} (h : IsEscape text) : ∀ b ∈ text, 0x20 ≤ b ∧ b ≠ 0x7F := by
    intro b hb
    obtain ⟨hlow,hhigh⟩ := isEscapeByte_range (List.all_eq_true.mp h.2 b hb)
    exact ⟨hlow,fun heq => absurd hhigh (by rw [heq]; decide)⟩
  induction value using rounds with
  | nil => simp
  | scalar v rest hv ih =>
    rw [append_scalar style hv,List.forall_mem_append]
    refine ⟨?_,ih⟩
    rcases appendScalarBytes_cases v with ⟨-,htext⟩ | ⟨-,htext⟩
    · rw [htext]
      intro b hb
      have hhigh := encode_high hv hb
      constructor
      · exact UInt8.le_trans (by decide) hhigh
      · rintro rfl
        exact absurd hhigh (by decide)
    · exact hescape htext
  | byte b rest hb ih =>
    rw [append_byte style hb,List.forall_mem_append]
    refine ⟨?_,ih⟩
    rcases appendByte_cases style b with ⟨hplain,htext⟩ | htext
    · rw [htext,List.forall_mem_singleton]
      exact ⟨hplain.1,hplain.2.1⟩
    · exact hescape htext

theorem IsEscape.decodeOne {text : Bytes} (h : IsEscape text) {i : ℕ} (hi : i < text.length) {more : Bytes}
    {scalar : DecodedScalar} (hscalar : decodeOne ((text ++ more).drop i) = some scalar) : scalar.byteCount = 1 := by
  have hbyte := (isEscapeByte_range (List.all_eq_true.mp h.2 _ (List.getElem_mem hi))).2
  have hascii : text[i] < 0x80 := UInt8.lt_trans hbyte (by decide)
  rw [List.drop_append_of_le_length hi.le,List.drop_eq_getElem_cons hi,List.cons_append,decodeOne_ascii hascii] at hscalar
  rw [← Option.some.inj hscalar]

theorem decodeOne_continuation_none {b : Byte} (h : isContinuation b = true) (s : Bytes) : decodeOne (b :: s) = none := by
  have hb : b &&& 0xC0 = 0x80 := of_decide_eq_true h
  have hpart (mask : Byte) (hmask : mask &&& 0xC0 = 0xC0) : b &&& mask &&& 0xC0 = 0x80 := by
    rw [UInt8.and_assoc,hmask,hb]
  have hshape : sequenceShape b = none := by
    unfold sequenceShape
    rw [if_neg,if_neg,if_neg]
    · intro hlead
      exact absurd (hlead ▸ hpart 0xF8 (by decide)) (by decide)
    · intro hlead
      exact absurd (hlead ▸ hpart 0xF0 (by decide)) (by decide)
    · intro hlead
      exact absurd (hlead ▸ hpart 0xE0 (by decide)) (by decide)
  rw [decodeOne,if_neg (UInt8.not_lt.mpr (isContinuation_range h).1),hshape]

theorem decodeOne_inside {v : Scalar} {i : ℕ} (hi : 0 < i) (hlen : i < (encode v).length) (more : Bytes) :
    decodeOne ((encode v ++ more).drop i) = none := by
  have hread := decodeOne_encode v []
  rw [List.append_nil] at hread
  cases hbytes : encode v with
  | nil => exact absurd hbytes (encode_ne_nil v)
  | cons first s =>
    obtain ⟨k,rfl⟩ : ∃ k, i = k + 1 := ⟨i - 1,by omega⟩
    rw [hbytes] at hread hlen
    rw [List.length_cons] at hlen
    have hk : k < s.length := by omega
    have hcontinuation := decodeOne_continuation hread
    rw [List.length_cons,Nat.add_sub_cancel,List.take_length] at hcontinuation
    rw [List.cons_append,List.drop_succ_cons,List.drop_append_of_le_length hk.le,List.drop_eq_getElem_cons hk,
      List.cons_append]
    exact decodeOne_continuation_none (hcontinuation _ (List.getElem_mem hk)) _

/-- The bytes outside ASCII that the output begins with are the first of the input. -/
theorem high_front (style : DiagnosticEscapeStyle) (value : Bytes) :
    (appendSafeDiagnostic style value).takeWhile isHigh <+: value := by
  have hescape {text : Bytes} (h : IsEscape text) (more : Bytes) : (text ++ more).takeWhile isHigh = [] := by
    cases text with
    | nil => cases h.1
    | cons b text =>
      have hb : b = backslash := Option.some.inj h.1
      rw [hb]
      rfl
  induction value using rounds with
  | nil => simp
  | scalar v rest hv ih =>
    rw [append_scalar style hv]
    rcases appendScalarBytes_cases v with ⟨-,htext⟩ | ⟨-,htext⟩
    · have hall : ∀ b ∈ encode v, isHigh b = true := fun b hb => decide_eq_true (encode_high hv hb)
      rw [htext,List.takeWhile_append_of_pos hall,List.prefix_append_right_inj]
      exact ih
    · rw [hescape htext]
      exact List.nil_prefix
  | byte b rest hb ih =>
    rw [append_byte style hb]
    rcases appendByte_cases style b with ⟨-,htext⟩ | htext
    · rw [htext,List.singleton_append,List.takeWhile_cons]
      split
      · exact List.cons_prefix_cons.mpr ⟨rfl,ih⟩
      · exact List.nil_prefix
    · rw [hescape htext]
      exact List.nil_prefix

/-- A byte that is lone in the input is lone in the output. -/
theorem Lone.written {b : Byte} {rest : Bytes} (h : Lone b rest) (style : DiagnosticEscapeStyle) :
    Lone b (appendSafeDiagnostic style rest) := by
  intro scalar hscalar
  by_contra hcount
  obtain ⟨k,hk⟩ : ∃ k, scalar.byteCount = k + 1 := ⟨scalar.byteCount - 1,by omega⟩
  have hcontinuation := decodeOne_continuation hscalar
  rw [hk,Nat.add_sub_cancel] at hcontinuation
  -- The continuation bytes are outside ASCII, hence bytes of the input.
  have hrun : (appendSafeDiagnostic style rest).take k <+: rest := by
    have hall : ∀ x ∈ (appendSafeDiagnostic style rest).take k, isHigh x = true :=
      fun x hx => decide_eq_true (isContinuation_range (hcontinuation x hx)).1
    have htake : ((appendSafeDiagnostic style rest).take k ++ (appendSafeDiagnostic style rest).drop k).takeWhile isHigh =
        (appendSafeDiagnostic style rest).take k ++ ((appendSafeDiagnostic style rest).drop k).takeWhile isHigh :=
      List.takeWhile_append_of_pos hall
    rw [List.take_append_drop] at htake
    exact (htake ▸ List.prefix_append _ _).trans (high_front style rest)
  obtain ⟨more,hmore⟩ := hrun
  have hread := decodeOne_take hscalar more
  rw [hk,List.take_succ_cons,List.cons_append,hmore] at hread
  exact hcount (h scalar hread)

/-- A scalar of more than one byte in the output is one of the input, in front of which the loop has
written what is in front of it in the output. -/
theorem scalar_of_output (style : DiagnosticEscapeStyle) (value : Bytes) {i : ℕ} {scalar : DecodedScalar}
    (hscalar : decodeOne ((appendSafeDiagnostic style value).drop i) = some scalar) (hcount : 1 < scalar.byteCount) :
    ∃ before after, value = before ++ after ∧ decodeOne after = some scalar ∧
      (appendSafeDiagnostic style before).length = i ∧
      appendSafeDiagnostic style value = appendSafeDiagnostic style before ++ appendSafeDiagnostic style after := by
  induction value using rounds generalizing i with
  | nil =>
    rw [append_nil,List.drop_nil] at hscalar
    cases hscalar
  | scalar v rest hv ih =>
    rw [append_scalar style hv] at hscalar ⊢
    by_cases hi : i < (appendScalarBytes (encode v) (isC1Control v.val)).length
    · rcases appendScalarBytes_cases v with ⟨hcontrol,htext⟩ | ⟨-,htext⟩
      · rw [htext] at hi hscalar
        by_cases hzero : i = 0
        · subst hzero
          rw [List.drop_zero,decodeOne_encode] at hscalar
          refine ⟨[],encode v ++ rest,rfl,?_,?_,?_⟩
          · rw [decodeOne_encode]
            exact hscalar
          · rw [append_nil]
            rfl
          · rw [append_nil,List.nil_append,append_scalar style hv]
        · rw [decodeOne_inside (Nat.pos_of_ne_zero hzero) hi] at hscalar
          cases hscalar
      · exact absurd (htext.decodeOne hi hscalar) hcount.ne'
    · rw [List.drop_append,List.drop_of_length_le (not_lt.mp hi),List.nil_append] at hscalar
      obtain ⟨before,after,rfl,hafter,hlength,hsplit⟩ := ih hscalar
      refine ⟨encode v ++ before,after,(List.append_assoc ..).symm,hafter,?_,?_⟩
      · rw [append_scalar style hv,List.length_append,hlength]
        omega
      · rw [append_scalar style hv,hsplit,List.append_assoc]
  | byte b rest hb ih =>
    rw [append_byte style hb] at hscalar ⊢
    by_cases hi : i < (appendByte style b).length
    · rcases appendByte_cases style b with ⟨-,htext⟩ | htext
      · rw [htext] at hi hscalar
        obtain rfl : i = 0 := by simpa using hi
        exact absurd (hb.written style scalar hscalar) (not_le.mpr hcount)
      · exact absurd (htext.decodeOne hi hscalar) hcount.ne'
    · rw [List.drop_append,List.drop_of_length_le (not_lt.mp hi),List.nil_append] at hscalar
      obtain ⟨before,after,rfl,hafter,hlength,hsplit⟩ := ih hscalar
      refine ⟨b :: before,after,rfl,hafter,?_,?_⟩
      · rw [append_byte style hb.take,List.length_append,hlength]
        omega
      · rw [append_byte style hb.take,hsplit,List.append_assoc]

theorem byteCount_of_value {s : Bytes} {scalar : DecodedScalar} (h : decodeOne s = some scalar)
    (hvalue : 0x80 ≤ scalar.value) : 1 < scalar.byteCount := by
  obtain ⟨v,t,-,rfl⟩ := decodeOne_iff.mp h
  exact encode_length_iff.mpr hvalue

theorem no_c1_scalar (style : DiagnosticEscapeStyle) (value : Bytes) {i : ℕ} {scalar : DecodedScalar}
    (hscalar : decodeOne ((appendSafeDiagnostic style value).drop i) = some scalar) :
    isC1Control scalar.value = false := by
  by_contra hcontrol
  rw [Bool.not_eq_false] at hcontrol
  have hvalue : 0x80 ≤ scalar.value := (by simpa [isC1Control] using hcontrol : _ ∧ _).1
  have hcount := byteCount_of_value hscalar hvalue
  obtain ⟨before,after,rfl,hafter,rfl,hsplit⟩ := scalar_of_output style value hscalar hcount
  obtain ⟨v,rest,rfl,rfl⟩ := decodeOne_iff.mp hafter
  rw [hsplit,List.drop_left,append_scalar style hvalue] at hscalar
  rcases appendScalarBytes_cases v with ⟨hplain,-⟩ | ⟨-,htext⟩
  · exact absurd hcontrol (by rw [hplain]; decide)
  · -- The scalar is escaped, so a backslash stands in its place.
    have hpos : 0 < (appendScalarBytes (encode v) (isC1Control v.val)).length := by
      rw [List.length_pos_iff]
      intro hnil
      rw [hnil] at htext
      cases htext.1
    exact absurd (htext.decodeOne hpos hscalar) hcount.ne'

/-- A place behind some text lies in a scalar when it does so without that text. -/
theorem covered_behind {text more : Bytes} {i : ℕ} (hi : ¬i < text.length)
    (h : ∃ j scalar, decodeOne (more.drop j) = some scalar ∧ j ≤ i - text.length ∧
      i - text.length < j + scalar.byteCount) :
    ∃ j scalar, decodeOne ((text ++ more).drop j) = some scalar ∧ j ≤ i ∧ i < j + scalar.byteCount := by
  obtain ⟨j,scalar,hscalar,hle,hlt⟩ := h
  refine ⟨text.length + j,scalar,?_,by omega,by omega⟩
  rw [List.drop_append,List.drop_of_length_le (by omega),List.nil_append,Nat.add_sub_cancel_left]
  exact hscalar

/-- A byte of the C1 range belongs to a scalar that can be read. -/
theorem c1_byte_covered (style : DiagnosticEscapeStyle) (value : Bytes) {i : ℕ} {b : Byte}
    (hb : (appendSafeDiagnostic style value)[i]? = some b) (hcontrol : isC1Control b.toNat = true) :
    ∃ j scalar, decodeOne ((appendSafeDiagnostic style value).drop j) = some scalar ∧ j ≤ i ∧
      i < j + scalar.byteCount := by
  have hescape {text : Bytes} (h : IsEscape text) (hmem : b ∈ text) : False := by
    have hascii := UInt8.lt_iff_toNat_lt.mp (isEscapeByte_range (List.all_eq_true.mp h.2 b hmem)).2
    have hhigh : 0x80 ≤ b.toNat := (by simpa [isC1Control] using hcontrol : _ ∧ _).1
    have hlimit : (0x7F : Byte).toNat = 127 := rfl
    omega
  induction value using rounds generalizing i with
  | nil => simp at hb
  | scalar v rest hv ih =>
    rw [append_scalar style hv] at hb ⊢
    by_cases hi : i < (appendScalarBytes (encode v) (isC1Control v.val)).length
    · rw [List.getElem?_append_left hi] at hb
      rcases appendScalarBytes_cases v with ⟨-,htext⟩ | ⟨-,htext⟩
      · rw [htext] at hi ⊢
        exact ⟨0,_,decodeOne_encode v _,Nat.zero_le _,by simpa using hi⟩
      · exact (hescape htext (List.mem_of_getElem? hb)).elim
    · rw [List.getElem?_append_right (not_lt.mp hi)] at hb
      exact covered_behind hi (ih hb)
  | byte b' rest hlone ih =>
    rw [append_byte style hlone] at hb ⊢
    by_cases hi : i < (appendByte style b').length
    · rw [List.getElem?_append_left hi] at hb
      have hmem := List.mem_of_getElem? hb
      rcases appendByte_cases style b' with ⟨hplain,htext⟩ | htext
      · rw [htext,List.mem_singleton] at hmem
        rw [hmem,hplain.2.2.1] at hcontrol
        cases hcontrol
      · exact (hescape htext hmem).elim
    · rw [List.getElem?_append_right (not_lt.mp hi)] at hb
      exact covered_behind hi (ih hb)

/-- The byte that an escape of one character stands for. -/
def shortEscape (kind : Byte) : Option Byte :=
  if kind = backslash then some backslash
  else if kind = char 'n' then some lf
  else if kind = char 'r' then some cr
  else if kind = char 't' then some tab
  else none

/-- The escapes of the log style are undone, and any other byte stands for itself. -/
def unescape : Bytes → Bytes
  | first :: kind :: rest =>
    if first ≠ backslash then first :: unescape (kind :: rest)
    else
      match shortEscape kind with
      | some b => b :: unescape rest
      | none =>
        match rest with
        | high :: low :: rest =>
          UInt8.ofNat ((digitValue high).getD 0 * 16 + (digitValue low).getD 0) :: unescape rest
        | rest => first :: kind :: rest
  | text => text

theorem unescape_plain {b : Byte} (hb : b ≠ backslash) (rest : Bytes) : unescape (b :: rest) = b :: unescape rest := by
  cases rest with
  | nil => rfl
  | cons kind rest =>
    rw [unescape.eq_def]
    exact if_pos hb

theorem unescape_short (kind : Byte) {b : Byte} (h : shortEscape kind = some b) (rest : Bytes) :
    unescape (backslash :: kind :: rest) = b :: unescape rest := by
  rw [unescape.eq_def]
  dsimp only
  rw [if_neg (not_not.mpr rfl),h]

theorem unescape_hexadecimal (b : Byte) (rest : Bytes) :
    unescape (appendHexadecimalByte b ++ rest) = b :: unescape rest := by
  have hhigh := (hexadecimalDigit_escape (b >>> 4) (high_digit b).1).2
  have hlow := (hexadecimalDigit_escape (b &&& 0x0F) (low_digit b).1).2
  have hsum : b.toNat / 16 * 16 + b.toNat % 16 = b.toNat := Nat.div_add_mod' ..
  have hkind : shortEscape (char 'x') = none := by decide
  have htext : appendHexadecimalByte b ++ rest = backslash :: char 'x' :: hexadecimalDigit (b >>> 4) ::
      hexadecimalDigit (b &&& 0x0F) :: rest := rfl
  rw [htext,unescape,if_neg (not_not.mpr rfl),hkind]
  dsimp only
  rw [hhigh,hlow,Option.getD_some,Option.getD_some,(high_digit b).2,(low_digit b).2,hsum,UInt8.ofNat_toNat]

theorem unescape_byte (b : Byte) (rest : Bytes) : unescape (appendByte .log b ++ rest) = b :: unescape rest := by
  unfold appendByte
  split
  · rename_i h
    rw [h.2]
    exact unescape_short backslash (by decide) rest
  · rename_i hbackslash
    split
    · rename_i h
      rw [h.2]
      exact unescape_short (char 'n') (by decide) rest
    · split
      · rename_i h
        rw [h.2]
        exact unescape_short (char 'r') (by decide) rest
      · split
        · rename_i h
          rw [h.2]
          exact unescape_short (char 't') (by decide) rest
        · split
          · exact unescape_hexadecimal b rest
          · exact unescape_plain (fun hb => hbackslash ⟨rfl,hb⟩) rest

theorem unescape_scalar {v : Scalar} (hv : 0x80 ≤ v.val) (escape : Bool) (rest : Bytes) :
    unescape (appendScalarBytes (encode v) escape ++ rest) = encode v ++ unescape rest := by
  have hbytes : ∀ b ∈ encode v, b ≠ backslash := by
    rintro b hb rfl
    exact absurd (encode_high hv hb) (by decide)
  have hall {s : Bytes} (hs : ∀ b ∈ s, b ≠ backslash) :
      unescape (appendScalarBytes s escape ++ rest) = s ++ unescape rest := by
    induction s with
    | nil => rfl
    | cons b s ih =>
      rw [List.forall_mem_cons] at hs
      rw [appendScalarBytes,List.flatMap_cons,List.append_assoc]
      cases escape with
      | false => exact (unescape_plain hs.1 _).trans (congrArg (b :: ·) (ih hs.2))
      | true => exact (unescape_hexadecimal b _).trans (congrArg (b :: ·) (ih hs.2))
  exact hall hbytes

theorem unescape_append (value : Bytes) : unescape (appendSafeDiagnostic .log value) = value := by
  induction value using rounds with
  | nil =>
    rw [append_nil]
    rfl
  | scalar v rest hv ih => rw [append_scalar .log hv,unescape_scalar hv,ih]
  | byte b rest hb ih => rw [append_byte .log hb,unescape_byte,ih]

theorem appendSafeDiagnostic_injective : Function.Injective (appendSafeDiagnostic .log) :=
  Function.LeftInverse.injective unescape_append

end SpareNode.Text
