import SpareNode.Foundation.Bytes

/-! # UTF-8

`text::utf8`: decoding of the first scalar of a byte string and validation of a whole one.
A scalar is decided by its leading byte and the continuation bytes it announces, so what
follows those bytes never matters.
-/
namespace SpareNode.Utf8

structure DecodedScalar where
  value : ℕ
  byteCount : ℕ
deriving DecidableEq, Repr

def isScalarValue (codePoint : ℕ) : Bool :=
  codePoint ≤ 0x10FFFF && (codePoint < 0xD800 || 0xDFFF < codePoint)

/-- The announced length, the payload of the leading byte and the least code point that needs
this many bytes. -/
def sequenceShape (leadingByte : Byte) : Option (ℕ × ℕ × ℕ) :=
  if leadingByte &&& 0xE0 = 0xC0 then some (2,(leadingByte &&& 0x1F).toNat,0x80)
  else if leadingByte &&& 0xF0 = 0xE0 then some (3,(leadingByte &&& 0x0F).toNat,0x800)
  else if leadingByte &&& 0xF8 = 0xF0 then some (4,(leadingByte &&& 0x07).toNat,0x10000)
  else none

def isContinuation (b : Byte) : Bool := b &&& 0xC0 = 0x80

def appendPayload (codePoint : ℕ) : Bytes → Option ℕ
  | [] => some codePoint
  | b :: rest =>
    if isContinuation b then appendPayload (codePoint <<< 6 ||| (b &&& 0x3F).toNat) rest else none

def decodeOne : Bytes → Option DecodedScalar
  | [] => none
  | leadingByte :: rest =>
    if leadingByte < 0x80 then some ⟨leadingByte.toNat,1⟩ else
      match sequenceShape leadingByte with
      | none => none
      | some (length,payload,minimum) =>
        if rest.length + 1 < length then none else
          match appendPayload payload (rest.take (length - 1)) with
          | none => none
          | some codePoint =>
            if codePoint < minimum || !isScalarValue codePoint then none else some ⟨codePoint,length⟩

section Scalars
variable {s t : Bytes} {b : Byte} {scalar : DecodedScalar}

theorem sequenceShape_length {length payload minimum : ℕ}
    (h : sequenceShape b = some (length,payload,minimum)) : 2 ≤ length ∧ length ≤ 4 := by
  unfold sequenceShape at h
  split at h
  · simp only [Option.some.injEq,Prod.mk.injEq] at h
    omega
  · split at h
    · simp only [Option.some.injEq,Prod.mk.injEq] at h
      omega
    · split at h
      · simp only [Option.some.injEq,Prod.mk.injEq] at h
        omega
      · cases h

theorem isContinuation_range (h : isContinuation b = true) : 0x80 ≤ b ∧ b < 0xC0 := by
  have hall : ∀ b, isContinuation b = true → 0x80 ≤ b ∧ b < 0xC0 := forall_byte (by decide +kernel)
  exact hall b h

theorem appendPayload_continuation {codePoint v : ℕ} (h : appendPayload codePoint s = some v) :
    ∀ b ∈ s, isContinuation b = true := by
  induction s generalizing codePoint with
  | nil => simp
  | cons x s ih =>
    rw [appendPayload] at h
    split at h
    · rename_i hx
      intro b hb
      rcases List.mem_cons.mp hb with rfl | hb
      · exact hx
      · exact ih h b hb
    · cases h

theorem decodeOne_ascii (h : b < 0x80) : decodeOne (b :: s) = some ⟨b.toNat,1⟩ := by
  rw [decodeOne,if_pos h]

/-- A scalar of more than one byte is its leading byte and its continuation bytes. -/
theorem decodeOne_cases (h : decodeOne (b :: s) = some scalar) :
    (b < 0x80 ∧ scalar = ⟨b.toNat,1⟩) ∨
    ¬b < 0x80 ∧ ∃ length payload minimum, sequenceShape b = some (length,payload,minimum) ∧
      length ≤ s.length + 1 ∧ scalar.byteCount = length ∧
      appendPayload payload (s.take (length - 1)) = some scalar.value ∧
      minimum ≤ scalar.value ∧ isScalarValue scalar.value = true := by
  rw [decodeOne] at h
  by_cases hb : b < 0x80
  · rw [if_pos hb] at h
    exact Or.inl ⟨hb,(Option.some.inj h).symm⟩
  · right
    rw [if_neg hb] at h
    refine ⟨hb,?_⟩
    split at h
    · cases h
    · rename_i length payload minimum hshape
      split at h
      · cases h
      · rename_i hlen
        split at h
        · cases h
        · rename_i codePoint hpayload
          split at h
          · cases h
          · rename_i hrange
            obtain rfl := Option.some.inj h
            simp only [Bool.or_eq_true,decide_eq_true_eq,Bool.not_eq_eq_eq_not,Bool.not_true,not_or,
              Bool.not_eq_false,not_lt] at hrange
            exact ⟨length,payload,minimum,hshape,by omega,rfl,hpayload,hrange.1,hrange.2⟩

theorem decodeOne_of_shape {length payload minimum v : ℕ} (hb : ¬b < 0x80)
    (hshape : sequenceShape b = some (length,payload,minimum)) (hlen : length ≤ s.length + 1)
    (hpayload : appendPayload payload (s.take (length - 1)) = some v) (hmin : minimum ≤ v)
    (hscalar : isScalarValue v = true) : decodeOne (b :: s) = some ⟨v,length⟩ := by
  have hshort : ¬s.length + 1 < length := by omega
  have hrange : ¬v < minimum := by omega
  simp [decodeOne,hb,hshape,hshort,hpayload,hrange,hscalar]

theorem decodeOne_byteCount (h : decodeOne s = some scalar) :
    1 ≤ scalar.byteCount ∧ scalar.byteCount ≤ s.length := by
  cases s with
  | nil => cases h
  | cons b s =>
    rcases decodeOne_cases h with ⟨-,rfl⟩ | ⟨-,length,payload,minimum,hshape,hlen,hcount,-⟩
    · simp
    · have := sequenceShape_length hshape
      rw [hcount,List.length_cons]
      omega

theorem decodeOne_take (h : decodeOne s = some scalar) (t : Bytes) :
    decodeOne (s.take scalar.byteCount ++ t) = some scalar := by
  cases s with
  | nil => cases h
  | cons b s =>
    rcases decodeOne_cases h with ⟨hb,rfl⟩ |
      ⟨hb,length,payload,minimum,hshape,hlen,hcount,hpayload,hmin,hscalar⟩
    · exact decodeOne_ascii hb
    · have hrange := sequenceShape_length hshape
      obtain ⟨k,rfl⟩ : ∃ k, length = k + 1 := ⟨length - 1,by omega⟩
      rw [Nat.add_sub_cancel] at hpayload
      have hk : (s.take k).length = k := by
        rw [List.length_take]
        omega
      have htake : (s.take k ++ t).take (k + 1 - 1) = s.take k := by
        rw [Nat.add_sub_cancel,List.take_append_of_le_length hk.ge,List.take_take,Nat.min_self]
      rw [hcount,List.take_succ_cons,List.cons_append,
        decodeOne_of_shape hb hshape (by rw [List.length_append,hk]; omega)
          (by rw [htake]; exact hpayload) hmin hscalar,← hcount]

/-- The bytes of a scalar after its first are continuation bytes. -/
theorem decodeOne_continuation (h : decodeOne (b :: s) = some scalar) :
    ∀ x ∈ s.take (scalar.byteCount - 1), isContinuation x = true := by
  rcases decodeOne_cases h with ⟨-,rfl⟩ | ⟨-,length,payload,minimum,-,-,hcount,hpayload,-⟩
  · simp
  · rw [hcount]
    exact appendPayload_continuation hpayload

def isHigh (b : Byte) : Bool := 0x80 ≤ b

theorem decodeOne_high_of_some (hhigh : s.takeWhile isHigh = t.takeWhile isHigh)
    (h : decodeOne (b :: s) = some scalar) : decodeOne (b :: t) = some scalar := by
  have hcount := (decodeOne_byteCount h).1
  obtain ⟨k,hk⟩ : ∃ k, scalar.byteCount = k + 1 := ⟨scalar.byteCount - 1,by omega⟩
  have hcont := decodeOne_continuation h
  rw [hk,Nat.add_sub_cancel] at hcont
  -- The continuation bytes lie in the common run of high bytes.
  have hrun : s.take k <+: t := by
    have hall : (s.take k).all isHigh = true := by
      rw [List.all_eq_true]
      intro x hx
      exact decide_eq_true (isContinuation_range (hcont x hx)).1
    have htake : s.take k <+: s.takeWhile isHigh := by
      have happ : (s.take k ++ s.drop k).takeWhile isHigh = s.take k ++ (s.drop k).takeWhile isHigh :=
        List.takeWhile_append_of_pos (List.all_eq_true.mp hall)
      rw [List.take_append_drop] at happ
      rw [happ]
      exact List.prefix_append _ _
    exact (hhigh ▸ htake).trans (List.takeWhile_prefix _)
  obtain ⟨t',rfl⟩ := hrun
  have htake := decodeOne_take h t'
  rwa [hk,List.take_succ_cons,List.cons_append] at htake

/-- Decoding looks no further than the run of high bytes after the first. -/
theorem decodeOne_high (b : Byte) (hhigh : s.takeWhile isHigh = t.takeWhile isHigh) :
    decodeOne (b :: s) = decodeOne (b :: t) := by
  cases hs : decodeOne (b :: s) with
  | some scalar => exact (decodeOne_high_of_some hhigh hs).symm
  | none =>
    cases ht : decodeOne (b :: t) with
    | none => rfl
    | some scalar =>
      rw [decodeOne_high_of_some hhigh.symm ht] at hs
      cases hs

end Scalars

def isValid (input : Bytes) : Bool :=
  if input.isEmpty then true else
    match _h : decodeOne input with
    | none => false
    | some scalar => isValid (input.drop scalar.byteCount)
termination_by input.length
decreasing_by
  have := decodeOne_byteCount _h
  simp only [List.length_drop]
  omega

theorem isValid_nil : isValid [] = true := by
  rw [isValid]
  rfl

theorem isValid_cons_iff {b : Byte} {s : Bytes} : isValid (b :: s) = true ↔
    ∃ scalar, decodeOne (b :: s) = some scalar ∧ isValid ((b :: s).drop scalar.byteCount) = true := by
  rw [isValid]
  simp only [List.isEmpty_cons,Bool.false_eq_true,↓reduceIte]
  split
  · rename_i hnone
    simp [hnone]
  · rename_i scalar hsome
    simp [hsome]

end SpareNode.Utf8
