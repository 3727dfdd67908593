import SpareNode.Foundation.Utf8

/-! # The encoding of scalars

`append_code_point` writes the shortest sequence of a scalar value, and `decode_one` reads exactly
these sequences. A text is valid UTF-8 when it is the encoding of a list of scalars, and it is the
encoding of only one.
-/
namespace SpareNode.Utf8

abbrev Scalar := {v : ℕ // isScalarValue v = true}

/-- The bytes that `append_code_point` pushes. -/
def encodePoint (value : ℕ) : Bytes :=
  if value < 0x80 then [UInt8.ofNat value]
  else if value < 0x800 then [UInt8.ofNat (0xC0 ||| value >>> 6),UInt8.ofNat (0x80 ||| (value &&& 0x3F))]
  else if value < 0x10000 then
    [UInt8.ofNat (0xE0 ||| value >>> 12),UInt8.ofNat (0x80 ||| (value >>> 6 &&& 0x3F)),
      UInt8.ofNat (0x80 ||| (value &&& 0x3F))]
  else
    [UInt8.ofNat (0xF0 ||| value >>> 18),UInt8.ofNat (0x80 ||| (value >>> 12 &&& 0x3F)),
      UInt8.ofNat (0x80 ||| (value >>> 6 &&& 0x3F)),UInt8.ofNat (0x80 ||| (value &&& 0x3F))]

def appendCodePoint (output : Bytes) (codePoint : ℕ) : Bytes × Bool :=
  if isScalarValue codePoint then (output ++ encodePoint codePoint,true) else (output,false)

def encode (v : Scalar) : Bytes := encodePoint v.val

def encodeAll (vs : List Scalar) : Bytes := vs.flatMap encode

theorem continuation_of_payload {p : ℕ} (hp : p < 64) : isContinuation (UInt8.ofNat (0x80 ||| p)) = true ∧
    (UInt8.ofNat (0x80 ||| p) &&& 0x3F).toNat = p := by
  have hall : ∀ p : Fin 64, isContinuation (UInt8.ofNat (0x80 ||| p.val)) = true ∧
      (UInt8.ofNat (0x80 ||| p.val) &&& 0x3F).toNat = p.val := by decide +kernel
  exact hall ⟨p,hp⟩

theorem payload_of_continuation : ∀ b, isContinuation b = true →
    (b &&& 0x3F).toNat < 64 ∧ b = UInt8.ofNat (0x80 ||| (b &&& 0x3F).toNat) :=
  forall_byte (by decide +kernel)

def leadingByte : ℕ → ℕ → Byte
  | 2,p => UInt8.ofNat (0xC0 ||| p)
  | 3,p => UInt8.ofNat (0xE0 ||| p)
  | _,p => UInt8.ofNat (0xF0 ||| p)

def Shape (length p minimum : ℕ) : Prop :=
  length = 2 ∧ p < 32 ∧ minimum = 0x80 ∨ length = 3 ∧ p < 16 ∧ minimum = 0x800 ∨
    length = 4 ∧ p < 8 ∧ minimum = 0x10000

instance (length p minimum : ℕ) : Decidable (Shape length p minimum) :=
  inferInstanceAs (Decidable (_ ∨ _ ∨ _))

theorem sequenceShape_leadingByte {length p minimum : ℕ} (h : Shape length p minimum) :
    ¬leadingByte length p < 0x80 ∧ sequenceShape (leadingByte length p) = some (length,p,minimum) := by
  have htwo : ∀ p : Fin 32, ¬leadingByte 2 p < 0x80 ∧
      sequenceShape (leadingByte 2 p) = some (2,p.val,0x80) := by decide +kernel
  have hthree : ∀ p : Fin 16, ¬leadingByte 3 p < 0x80 ∧
      sequenceShape (leadingByte 3 p) = some (3,p.val,0x800) := by decide +kernel
  have hfour : ∀ p : Fin 8, ¬leadingByte 4 p < 0x80 ∧
      sequenceShape (leadingByte 4 p) = some (4,p.val,0x10000) := by decide +kernel
  rcases h with ⟨rfl,hp,rfl⟩ | ⟨rfl,hp,rfl⟩ | ⟨rfl,hp,rfl⟩
  · exact htwo ⟨p,hp⟩
  · exact hthree ⟨p,hp⟩
  · exact hfour ⟨p,hp⟩

theorem leadingByte_of_sequenceShape {b : Byte} {length p minimum : ℕ}
    (h : sequenceShape b = some (length,p,minimum)) : Shape length p minimum ∧ b = leadingByte length p := by
  have hall : ∀ b, ∀ shape ∈ sequenceShape b, Shape shape.1 shape.2.1 shape.2.2 ∧
      b = leadingByte shape.1 shape.2.1 := forall_byte (by decide +kernel)
  exact hall b _ h

theorem shift_payload (v p : ℕ) (hp : p < 64) : v <<< 6 ||| p = v * 64 + p := by
  rw [← Nat.shiftLeft_add_eq_or_of_lt (i := 6) hp,Nat.shiftLeft_eq]

theorem low_payload (v : ℕ) : v &&& 0x3F = v % 64 := Nat.and_two_pow_sub_one_eq_mod v 6

theorem appendPayload_cons {v p : ℕ} (hp : p < 64) (s : Bytes) :
    appendPayload v (UInt8.ofNat (0x80 ||| p) :: s) = appendPayload (v * 64 + p) s := by
  obtain ⟨hcontinuation,hpayload⟩ := continuation_of_payload hp
  rw [appendPayload,if_pos hcontinuation,hpayload,shift_payload v p hp]

theorem appendPayload_cons_inv {v w : ℕ} {b : Byte} {s : Bytes} (h : appendPayload v (b :: s) = some w) :
    ∃ p, p < 64 ∧ b = UInt8.ofNat (0x80 ||| p) ∧ appendPayload (v * 64 + p) s = some w := by
  rw [appendPayload] at h
  split at h
  · rename_i hcontinuation
    obtain ⟨hp,hb⟩ := payload_of_continuation b hcontinuation
    rw [shift_payload _ _ hp] at h
    exact ⟨_,hp,hb,h⟩
  · cases h

theorem encodePoint_two {a p : ℕ} (hp : p < 64) (hmin : 0x80 ≤ a * 64 + p) (hmax : a * 64 + p < 0x800) :
    encodePoint (a * 64 + p) = [leadingByte 2 a,UInt8.ofNat (0x80 ||| p)] := by
  have hlow : (a * 64 + p) % 64 = p := by omega
  have hhigh : (a * 64 + p) >>> 6 = a := by
    rw [Nat.shiftRight_eq_div_pow]
    omega
  rw [encodePoint,if_neg (by omega),if_pos hmax,low_payload,hlow,hhigh]
  rfl

theorem encodePoint_three {a p q : ℕ} (hp : p < 64) (hq : q < 64) (hmin : 0x800 ≤ (a * 64 + p) * 64 + q)
    (hmax : (a * 64 + p) * 64 + q < 0x10000) :
    encodePoint ((a * 64 + p) * 64 + q) =
      [leadingByte 3 a,UInt8.ofNat (0x80 ||| p),UInt8.ofNat (0x80 ||| q)] := by
  have hlow : ((a * 64 + p) * 64 + q) % 64 = q := by omega
  have hmiddle : ((a * 64 + p) * 64 + q) >>> 6 % 64 = p := by
    rw [Nat.shiftRight_eq_div_pow]
    omega
  have hhigh : ((a * 64 + p) * 64 + q) >>> 12 = a := by
    rw [Nat.shiftRight_eq_div_pow]
    omega
  rw [encodePoint,if_neg (by omega),if_neg (by omega),if_pos hmax,low_payload,low_payload,hlow,hmiddle,hhigh]
  rfl

theorem encodePoint_four {a p q r : ℕ} (hp : p < 64) (hq : q < 64) (hr : r < 64)
    (hmin : 0x10000 ≤ ((a * 64 + p) * 64 + q) * 64 + r) :
    encodePoint (((a * 64 + p) * 64 + q) * 64 + r) =
      [leadingByte 4 a,UInt8.ofNat (0x80 ||| p),UInt8.ofNat (0x80 ||| q),UInt8.ofNat (0x80 ||| r)] := by
  have hlow : (((a * 64 + p) * 64 + q) * 64 + r) % 64 = r := by omega
  have hthird : (((a * 64 + p) * 64 + q) * 64 + r) >>> 6 % 64 = q := by
    rw [Nat.shiftRight_eq_div_pow]
    omega
  have hsecond : (((a * 64 + p) * 64 + q) * 64 + r) >>> 12 % 64 = p := by
    rw [Nat.shiftRight_eq_div_pow]
    omega
  have hhigh : (((a * 64 + p) * 64 + q) * 64 + r) >>> 18 = a := by
    rw [Nat.shiftRight_eq_div_pow]
    omega
  rw [encodePoint,if_neg (by omega),if_neg (by omega),if_neg (by omega),low_payload,low_payload,low_payload,
    hlow,hthird,hsecond,hhigh]
  rfl

/-- `decode_one` reads back what `append_code_point` wrote. -/
theorem decodeOne_encode (v : Scalar) (t : Bytes) : decodeOne (encode v ++ t) = some ⟨v.val,(encode v).length⟩ := by
  obtain ⟨v,hv⟩ := v
  have hrange : v ≤ 0x10FFFF := by
    simp only [isScalarValue,Bool.and_eq_true,decide_eq_true_eq] at hv
    exact hv.1
  have hsixth (v : ℕ) : v % 64 < 64 := Nat.mod_lt v (by decide)
  have hsplit (v : ℕ) : v / 64 * 64 + v % 64 = v := Nat.div_add_mod' v 64
  have hread {length a minimum : ℕ} {s : Bytes} (hshape : Shape length a minimum)
      (hlength : s.length = length - 1) (hpayload : appendPayload a s = some v) (hminimum : minimum ≤ v) :
      decodeOne (leadingByte length a :: s ++ t) = some ⟨v,length⟩ := by
    obtain ⟨hlead,hbyte⟩ := sequenceShape_leadingByte hshape
    have hpositive : 2 ≤ length := (sequenceShape_length hbyte).1
    refine decodeOne_of_shape (s := s ++ t) hlead hbyte ?_ ?_ hminimum hv
    · rw [List.length_append,hlength]
      omega
    · rw [← hlength,List.take_left]
      exact hpayload
  by_cases hone : v < 0x80
  · have hbyte : encode ⟨v,hv⟩ = [UInt8.ofNat v] := by simp [encode,encodePoint,hone]
    have hnat : (UInt8.ofNat v).toNat = v := UInt8.toNat_ofNat_of_lt' (by simp [UInt8.size]; omega)
    rw [hbyte]
    refine (decodeOne_ascii ?_).trans ?_
    · rw [UInt8.lt_iff_toNat_lt,hnat]
      exact hone
    · rw [hnat]
      rfl
  · by_cases htwo : v < 0x800
    · have hbytes := encodePoint_two (a := v / 64) (hsixth v) (by rw [hsplit]; omega) (by rw [hsplit]; exact htwo)
      rw [hsplit] at hbytes
      rw [encode,hbytes]
      refine hread (Or.inl ⟨rfl,by omega,rfl⟩) rfl ?_ ?_
      · rw [appendPayload_cons (hsixth v),hsplit]
        rfl
      · omega
    · by_cases hthree : v < 0x10000
      · have hbytes := encodePoint_three (a := v / 64 / 64) (hsixth (v / 64)) (hsixth v)
          (by rw [hsplit,hsplit]; omega) (by rw [hsplit,hsplit]; exact hthree)
        rw [hsplit,hsplit] at hbytes
        rw [encode,hbytes]
        refine hread (Or.inr (Or.inl ⟨rfl,by omega,rfl⟩)) rfl ?_ ?_
        · rw [appendPayload_cons (hsixth _),hsplit,appendPayload_cons (hsixth v),hsplit]
          rfl
        · omega
      · have hbytes := encodePoint_four (a := v / 64 / 64 / 64) (hsixth (v / 64 / 64)) (hsixth (v / 64)) (hsixth v)
          (by rw [hsplit,hsplit,hsplit]; omega)
        rw [hsplit,hsplit,hsplit] at hbytes
        rw [encode,hbytes]
        refine hread (Or.inr (Or.inr ⟨rfl,by omega,rfl⟩)) rfl ?_ ?_
        · rw [appendPayload_cons (hsixth _),hsplit,appendPayload_cons (hsixth _),hsplit,
            appendPayload_cons (hsixth v),hsplit]
          rfl
        · omega

/-- What `decode_one` reads is the shortest sequence of its scalar. -/
theorem decodeOne_sound {s : Bytes} {scalar : DecodedScalar} (h : decodeOne s = some scalar) :
    ∃ hv : isScalarValue scalar.value = true, s.take scalar.byteCount = encode ⟨scalar.value,hv⟩ := by
  cases s with
  | nil => cases h
  | cons b s =>
    rcases decodeOne_cases h with ⟨hb,rfl⟩ | ⟨-,length,payload,minimum,hshape,hlen,hcount,hpayload,hmin,hscalar⟩
    · have hlt : b.toNat < 0x80 := hb
      have hscalar : isScalarValue b.toNat = true := by
        simp only [isScalarValue,Bool.and_eq_true,Bool.or_eq_true,decide_eq_true_eq]
        omega
      refine ⟨hscalar,?_⟩
      rw [encode,encodePoint,if_pos hlt,UInt8.ofNat_toNat]
      rfl
    · refine ⟨hscalar,?_⟩
      obtain ⟨hpoint,hlead⟩ := leadingByte_of_sequenceShape hshape
      clear hshape
      subst hlead
      have htake : (s.take (length - 1)).length = length - 1 := by
        rw [List.length_take]
        omega
      rw [hcount,encode]
      generalize scalar.value = v at *
      rcases hpoint with ⟨rfl,ha,rfl⟩ | ⟨rfl,ha,rfl⟩ | ⟨rfl,ha,rfl⟩
      · obtain ⟨b₁,htail⟩ := List.length_eq_one_iff.mp htake
        rw [htail] at hpayload
        obtain ⟨p,hp,rfl,hlast⟩ := appendPayload_cons_inv hpayload
        obtain rfl := Option.some.inj hlast
        rw [encodePoint_two hp hmin (by omega),List.take_succ_cons]
        exact congrArg _ htail
      · obtain ⟨b₁,b₂,htail⟩ := List.length_eq_two.mp htake
        rw [htail] at hpayload
        obtain ⟨p,hp,rfl,hsecond⟩ := appendPayload_cons_inv hpayload
        obtain ⟨q,hq,rfl,hlast⟩ := appendPayload_cons_inv hsecond
        obtain rfl := Option.some.inj hlast
        rw [encodePoint_three hp hq hmin (by omega),List.take_succ_cons]
        exact congrArg _ htail
      · obtain ⟨b₁,b₂,b₃,htail⟩ := List.length_eq_three.mp htake
        rw [htail] at hpayload
        obtain ⟨p,hp,rfl,hsecond⟩ := appendPayload_cons_inv hpayload
        obtain ⟨q,hq,rfl,hthird⟩ := appendPayload_cons_inv hsecond
        obtain ⟨r,hr,rfl,hlast⟩ := appendPayload_cons_inv hthird
        obtain rfl := Option.some.inj hlast
        rw [encodePoint_four hp hq hr hmin,List.take_succ_cons]
        exact congrArg _ htail

theorem decodeOne_iff {s : Bytes} {scalar : DecodedScalar} : decodeOne s = some scalar ↔
    ∃ (v : Scalar) (t : Bytes), s = encode v ++ t ∧ scalar = ⟨v.val,(encode v).length⟩ := by
  constructor
  · intro h
    obtain ⟨hv,htake⟩ := decodeOne_sound h
    have hcount := (decodeOne_byteCount h).2
    refine ⟨⟨scalar.value,hv⟩,s.drop scalar.byteCount,?_,?_⟩
    · rw [← htake,List.take_append_drop]
    · rw [← htake,List.length_take,Nat.min_eq_left hcount]
  · rintro ⟨v,t,rfl,rfl⟩
    exact decodeOne_encode v t

theorem encode_ne_nil (v : Scalar) : encode v ≠ [] := by
  intro h
  have hread := decodeOne_encode v []
  rw [h] at hread
  cases hread

/-- The sequence of a scalar is not the beginning of another one's. -/
theorem encode_append_inj {v w : Scalar} {s t : Bytes} (h : encode v ++ s = encode w ++ t) : v = w ∧ s = t := by
  have hread := decodeOne_encode v s
  rw [h,decodeOne_encode] at hread
  obtain rfl : w = v := Subtype.ext (congrArg DecodedScalar.value (Option.some.inj hread))
  exact ⟨rfl,List.append_cancel_left h⟩

@[simp] theorem encodeAll_nil : encodeAll [] = [] := rfl

@[simp] theorem encodeAll_cons (v : Scalar) (vs : List Scalar) : encodeAll (v :: vs) = encode v ++ encodeAll vs :=
  List.flatMap_cons

@[simp] theorem encodeAll_append (vs ws : List Scalar) : encodeAll (vs ++ ws) = encodeAll vs ++ encodeAll ws :=
  List.flatMap_append

/-- A text is valid exactly when it is the encoding of scalars. -/
theorem isValid_iff {s : Bytes} : isValid s = true ↔ ∃ vs, s = encodeAll vs := by
  constructor
  · intro h
    induction hlength : s.length using Nat.strong_induction_on generalizing s with
    | _ n ih =>
      cases s with
      | nil => exact ⟨[],rfl⟩
      | cons b s =>
        obtain ⟨scalar,hread,hrest⟩ := isValid_cons_iff.mp h
        obtain ⟨v,t,ht,rfl⟩ := decodeOne_iff.mp hread
        rw [ht,List.drop_left] at hrest
        have hshort : t.length < n := by
          rw [← hlength,ht,List.length_append]
          have := List.length_pos_of_ne_nil (encode_ne_nil v)
          omega
        obtain ⟨vs,rfl⟩ := ih t.length hshort hrest rfl
        exact ⟨v :: vs,ht⟩
  · rintro ⟨vs,rfl⟩
    induction vs with
    | nil => exact isValid_nil
    | cons v vs ih =>
      rw [encodeAll_cons]
      cases hbytes : encode v ++ encodeAll vs with
      | nil => exact isValid_nil
      | cons b s =>
        rw [isValid_cons_iff,← hbytes]
        refine ⟨_,decodeOne_encode v _,?_⟩
        rw [List.drop_left]
        exact ih

theorem encode_of_ascii {v : Scalar} (h : v.val < 0x80) : encode v = [UInt8.ofNat v.val] := by
  rw [encode,encodePoint,if_pos h]

/-- A byte below 0x80 is a scalar of its own wherever a scalar begins. -/
theorem encode_append_cons {v : Scalar} {b : Byte} {s t : Bytes} (hb : b < 0x80) (h : encode v ++ s = b :: t) :
    v.val = b.toNat ∧ encode v = [b] ∧ s = t := by
  have hread := decodeOne_encode v s
  rw [h,decodeOne_ascii hb] at hread
  have hvalue : v.val = b.toNat := (congrArg DecodedScalar.value (Option.some.inj hread)).symm
  have hbytes : encode v = [b] := by
    rw [encode_of_ascii (hvalue ▸ hb),hvalue,UInt8.ofNat_toNat]
  rw [hbytes] at h
  exact ⟨hvalue,hbytes,(List.cons.inj h).2⟩

/-- A scalar begins with the first byte of the text that it begins. -/
theorem encode_head {v : Scalar} {b : Byte} {s t rest : Bytes} (hv : s = encode v ++ t) (hs : s = b :: rest) :
    (encode v).head? = some b := by
  cases hencode : encode v with
  | nil => exact absurd hencode (encode_ne_nil v)
  | cons first more =>
    rw [hs,hencode] at hv
    rw [(List.cons.inj hv).1]
    rfl

/-- The bytes of a longer scalar are all outside ASCII. -/
theorem encode_high {v : Scalar} (h : 0x80 ≤ v.val) {b : Byte} (hb : b ∈ encode v) : 0x80 ≤ b := by
  have hread := decodeOne_encode v []
  rw [List.append_nil] at hread
  cases hbytes : encode v with
  | nil => exact absurd hbytes (encode_ne_nil v)
  | cons first s =>
    rw [hbytes] at hread hb
    have hcontinuation := decodeOne_continuation hread
    rw [List.length_cons,Nat.add_sub_cancel,List.take_length] at hcontinuation
    rcases List.mem_cons.mp hb with rfl | hb
    · rcases decodeOne_cases hread with ⟨hascii,hscalar⟩ | ⟨hlead,-⟩
      · have hvalue : v.val = b.toNat := congrArg DecodedScalar.value hscalar
        exact absurd (UInt8.lt_iff_toNat_lt.mp hascii) (by rw [← hvalue]; exact not_lt.mpr h)
      · exact UInt8.not_lt.mp hlead
    · exact (isContinuation_range (hcontinuation b hb)).1

theorem isValid_ascii_cons {b : Byte} {s : Bytes} (hb : b < 0x80) : isValid (b :: s) = isValid s := by
  rw [Bool.eq_iff_iff,isValid_cons_iff,decodeOne_ascii hb]
  constructor
  · rintro ⟨scalar,h,hrest⟩
    rw [← Option.some.inj h] at hrest
    exact hrest
  · exact fun h => ⟨_,rfl,h⟩

theorem isValid_ascii_append {s t : Bytes} (hs : ∀ b ∈ s, b < 0x80) : isValid (s ++ t) = isValid t := by
  induction s with
  | nil => rfl
  | cons b s ih =>
    rw [List.forall_mem_cons] at hs
    rw [List.cons_append,isValid_ascii_cons hs.1,ih hs.2]

/-- What stands behind a byte of ASCII is valid on its own. -/
theorem isValid_behind {b : Byte} {s t : Bytes} (hb : b < 0x80) (h : isValid (s ++ b :: t) = true) :
    isValid t = true := by
  obtain ⟨vs,hvs⟩ := isValid_iff.mp h
  clear h
  induction vs generalizing s with
  | nil => simp at hvs
  | cons v vs ih =>
    rw [encodeAll_cons,List.append_eq_append_iff] at hvs
    rcases hvs with ⟨rest,hv,hrest⟩ | ⟨rest,rfl,hrest⟩
    · cases rest with
      | nil => exact ih (s := []) hrest
      | cons c rest =>
        -- the byte is a byte of this scalar, hence all of it
        rw [List.cons_append,List.cons.injEq] at hrest
        obtain ⟨rfl,hrest⟩ := hrest
        have hmem : b ∈ encode v := by
          rw [hv]
          exact List.mem_append_right _ List.mem_cons_self
        have hascii : v.val < 0x80 := by
          by_contra hlong
          exact UInt8.not_le.mpr hb (encode_high (not_lt.mp hlong) hmem)
        rw [encode_of_ascii hascii,eq_comm,List.append_eq_singleton_iff] at hv
        rcases hv with ⟨-,hbyte⟩ | ⟨-,hnone⟩
        · rw [hrest,(List.cons.inj hbyte).2,List.nil_append]
          exact isValid_iff.mpr ⟨vs,rfl⟩
        · cases hnone
    · exact ih hrest.symm

theorem appendCodePoint_eq (output : Bytes) (v : Scalar) : appendCodePoint output v.val = (output ++ encode v,true) :=
  if_pos v.property

theorem encodeAll_eq (vs : List Scalar) : encodeAll vs = (vs.map fun v => (appendCodePoint [] v.val).1).flatten := by
  have hpiece (v : Scalar) : (appendCodePoint [] v.val).1 = encode v := by rw [appendCodePoint_eq,List.nil_append]
  simp only [hpiece,encodeAll,List.flatMap]

/-- What `append_code_point` writes is what `decode_one` reads, and nothing else is. -/
theorem utf8_codec_agrees :
    (∀ (c : Scalar) (output t : Bytes), ∃ written, appendCodePoint output c.val = (output ++ written,true) ∧
      decodeOne (written ++ t) = some ⟨c.val,written.length⟩) ∧
    (∀ s scalar, decodeOne s = some scalar → scalar.byteCount ≤ s.length ∧
      appendCodePoint [] scalar.value = (s.take scalar.byteCount,true)) ∧
    (∀ s, isValid s = true ↔ ∃ cs : List Scalar, s = (cs.map fun c => (appendCodePoint [] c.val).1).flatten) ∧
    ∀ output c, (0xD800 ≤ c ∧ c ≤ 0xDFFF) ∨ 0x10FFFF < c → appendCodePoint output c = (output,false) := by
  refine ⟨?_,?_,?_,?_⟩
  · intro c output t
    exact ⟨encode c,appendCodePoint_eq output c,decodeOne_encode c t⟩
  · intro s scalar h
    obtain ⟨hv,htake⟩ := decodeOne_sound h
    refine ⟨(decodeOne_byteCount h).2,?_⟩
    rw [htake]
    exact appendCodePoint_eq [] ⟨scalar.value,hv⟩
  · intro s
    simp only [isValid_iff,encodeAll_eq]
  · intro output c hc
    apply if_neg
    simp only [isScalarValue,Bool.and_eq_true,Bool.or_eq_true,decide_eq_true_eq]
    omega

end SpareNode.Utf8
