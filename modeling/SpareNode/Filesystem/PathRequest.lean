import SpareNode.Foundation.Bytes

/-! # Path requests

A request path arrives percent-encoded. `decode_path_request` decodes it in one pass, rejects
a result in which a second pass would still find an escape, and turns backslashes into
slashes. The relation `PercentDecodes` says what one pass of decoding is.
-/
namespace SpareNode.Filesystem

inductive PathRequestDecodeError where
  | invalidPercentEncoding
deriving DecidableEq, Repr

def escapedByte (high low : ℕ) : Byte := UInt8.ofNat (high <<< 4 ||| low)

def percentDecode : Bytes → Except PathRequestDecodeError Bytes
  | [] => .ok []
  | b :: rest =>
    if b ≠ char '%' then
      match percentDecode rest with
      | .error e => .error e
      | .ok decoded => .ok (b :: decoded)
    else
      match rest with
      | h :: l :: rest =>
        match digitValue h,digitValue l with
        | some high,some low =>
          match percentDecode rest with
          | .error e => .error e
          | .ok decoded => .ok (escapedByte high low :: decoded)
        | _,_ => .error .invalidPercentEncoding
      | _ => .error .invalidPercentEncoding

/-- An escape stands at the beginning of the text. -/
def startsEscape : Bytes → Bool
  | b :: h :: l :: _ => b = char '%' && (digitValue h).isSome && (digitValue l).isSome
  | _ => false

def containsPercentEscape : Bytes → Bool
  | [] => false
  | b :: rest => startsEscape (b :: rest) || containsPercentEscape rest

/-- `std::ranges::replace(decoded_path, '\\', '/')`. -/
def replaceBackslashes (decoded : Bytes) : Bytes :=
  decoded.map (fun b => if b = char '\\' then char '/' else b)

def decodePathRequest (requestedPath : Bytes) : Except PathRequestDecodeError Bytes :=
  match percentDecode requestedPath with
  | .error e => .error e
  | .ok decoded =>
    if containsPercentEscape decoded then .error .invalidPercentEncoding
    else .ok (replaceBackslashes decoded)

/-- The second text is the first with each escape replaced by the byte it denotes. -/
inductive PercentDecodes : Bytes → Bytes → Prop
  | nil : PercentDecodes [] []
  | raw {b : Byte} {rest decoded : Bytes} (hb : b ≠ char '%') (h : PercentDecodes rest decoded) :
      PercentDecodes (b :: rest) (b :: decoded)
  | escape {h l : Byte} {high low : ℕ} {rest decoded : Bytes} (hhigh : digitValue h = some high)
      (hlow : digitValue l = some low) (hrest : PercentDecodes rest decoded) :
      PercentDecodes (char '%' :: h :: l :: rest) (UInt8.ofNat (16 * high + low) :: decoded)

def HasEscape (s : Bytes) : Prop :=
  ∃ a h l b, s = a ++ char '%' :: h :: l :: b ∧ (digitValue h).isSome ∧ (digitValue l).isSome

section Decoding
variable {request decoded text : Bytes} {b h l : Byte} {high low : ℕ}

theorem escapedByte_eq (high : ℕ) (hlow : digitValue l = some low) :
    escapedByte high low = UInt8.ofNat (16 * high + low) := by
  have hor := Nat.shiftLeft_add_eq_or_of_lt (i := 4) (digitValue_lt hlow) high
  rw [escapedByte,← hor,Nat.shiftLeft_eq]
  ring_nf

theorem startsEscape_iff {s : Bytes} : startsEscape s = true ↔
    ∃ h l b, s = char '%' :: h :: l :: b ∧ (digitValue h).isSome ∧ (digitValue l).isSome := by
  constructor
  · intro hs
    match s,hs with
    | x :: h :: l :: b,hs =>
      simp only [startsEscape,Bool.and_eq_true,decide_eq_true_eq] at hs
      exact ⟨h,l,b,by rw [hs.1.1],hs.1.2,hs.2⟩
  · rintro ⟨h,l,b,rfl,hh,hl⟩
    simp [startsEscape,hh,hl]

theorem containsPercentEscape_iff {s : Bytes} : containsPercentEscape s = true ↔ HasEscape s := by
  induction s with
  | nil => simp [containsPercentEscape,HasEscape]
  | cons x s ih =>
    rw [containsPercentEscape,Bool.or_eq_true,startsEscape_iff,ih]
    constructor
    · rintro (⟨h,l,b,hs,hh,hl⟩ | ⟨a,h,l,b,rfl,hh,hl⟩)
      · exact ⟨[],h,l,b,hs,hh,hl⟩
      · exact ⟨x :: a,h,l,b,rfl,hh,hl⟩
    · rintro ⟨a,h,l,b,hs,hh,hl⟩
      cases a with
      | nil => exact Or.inl ⟨h,l,b,hs,hh,hl⟩
      | cons y a =>
        obtain ⟨-,hs⟩ := List.cons.inj hs
        exact Or.inr ⟨a,h,l,b,hs,hh,hl⟩

theorem percentDecode_sound : percentDecode request = .ok decoded → PercentDecodes request decoded := by
  fun_induction percentDecode request generalizing decoded with
  | case1 =>
    intro h
    cases h
    exact .nil
  | case2 => simp
  | case3 b rest hb d hd ih =>
    intro h
    cases h
    exact .raw hb (ih hd)
  | case4 => simp
  | case5 b hb h l rest high low hlow hhigh d hd ih =>
    intro heq
    cases heq
    have hb : b = char '%' := not_not.mp hb
    rw [hb,escapedByte_eq high hlow]
    exact .escape hhigh hlow (ih hd)
  | _ => simp

theorem percentDecode_complete (h : PercentDecodes request decoded) :
    percentDecode request = .ok decoded := by
  induction h with
  | nil => rfl
  | raw hb _ ih =>
    rw [percentDecode.eq_def]
    simp only [hb,ne_eq,not_false_eq_true,↓reduceIte,ih]
  | escape hhigh hlow _ ih =>
    rw [percentDecode,if_neg (not_not.mpr rfl)]
    simp only [hhigh,hlow,ih]
    rw [escapedByte_eq _ hlow]

/-- A request decodes to the text of one decoding pass that leaves no escape. -/
theorem decodePathRequest_eq_ok_iff : decodePathRequest request = .ok text ↔
    ∃ decoded, PercentDecodes request decoded ∧ ¬HasEscape decoded ∧
      text = replaceBackslashes decoded := by
  unfold decodePathRequest
  constructor
  · intro h
    split at h
    · cases h
    · rename_i decoded hdecoded
      split at h
      · cases h
      · rename_i hescape
        cases h
        exact ⟨decoded,percentDecode_sound hdecoded,fun he => hescape (containsPercentEscape_iff.mpr he),rfl⟩
  · rintro ⟨decoded,hdecoded,hescape,rfl⟩
    rw [percentDecode_complete hdecoded]
    dsimp only
    rw [if_neg (fun he => hescape (containsPercentEscape_iff.mp he))]

end Decoding
end SpareNode.Filesystem
