import SpareNode.Foundation.Bytes

/-! # Decimal texts

`std::to_string` writes a natural number in digits, and reading the digits gives the number back.
-/
namespace SpareNode

/-- `std::to_string` of an unsigned number. -/
def toDecimal (n : ℕ) : Bytes := ascii (toString n)

theorem toDecimal_eq (n : ℕ) : toDecimal n = (Nat.toDigits 10 n).map (fun c => UInt8.ofNat c.toNat) := by
  rw [toDecimal,ascii,Nat.toString_eq_ofList_toDigits,String.toList_ofList]

theorem digitValue_digit {c : Char} (h : c.isDigit = true) :
    digitValue (UInt8.ofNat c.toNat) = some (c.toNat - '0'.toNat) := by
  obtain ⟨hlow,hhigh⟩ : 48 ≤ c.toNat ∧ c.toNat ≤ 57 := by
    simpa [Char.isDigit,UInt32.le_iff_toNat_le] using h
  have hall : ∀ i : Fin 10, digitValue (UInt8.ofNat (48 + i.val)) = some i.val := by decide
  have hdigit := hall ⟨c.toNat - 48,by omega⟩
  rwa [show 48 + (c.toNat - 48) = c.toNat by omega] at hdigit

theorem toDecimal_ne_nil (n : ℕ) : toDecimal n ≠ [] := by
  rw [toDecimal_eq,ne_eq,List.map_eq_nil_iff]
  exact Nat.toDigits_ne_nil

theorem toDecimal_digits (n : ℕ) : (toDecimal n).all (isDigit 10) = true := by
  rw [toDecimal_eq,List.all_map,List.all_eq_true]
  intro c hc
  have hdigit := Nat.isDigit_of_mem_toDigits (by decide) le_rfl hc
  have hrange : c.toNat ≤ 57 := by
    have := (Bool.and_eq_true_iff.mp hdigit).2
    simpa [UInt32.le_iff_toNat_le] using this
  have hzero : '0'.toNat = 48 := rfl
  simp only [Function.comp_apply,isDigit,digitValue_digit hdigit,decide_eq_true_eq]
  omega

theorem numeral_toDecimal (n : ℕ) : numeral 10 (toDecimal n) = n := by
  have hfold (cs : List Char) (hcs : ∀ c ∈ cs, c.isDigit = true) (value : ℕ) :
      (cs.map (fun c => UInt8.ofNat c.toNat)).foldl (fun value b => value * 10 + (digitValue b).getD 0) value =
        Nat.ofDigitChars 10 cs value := by
    induction cs generalizing value with
    | nil => rfl
    | cons c cs ih =>
      rw [List.map_cons,List.foldl_cons,ih (fun x hx => hcs x (List.mem_cons_of_mem _ hx)),Nat.ofDigitChars_cons,
        digitValue_digit (hcs c List.mem_cons_self),Nat.mul_comm]
      rfl
  rw [toDecimal_eq,numeral,hfold _ (fun c hc => Nat.isDigit_of_mem_toDigits (by decide) le_rfl hc)]
  exact Nat.ofDigitChars_ten_toDigits

theorem toDecimal_length (n : ℕ) : (toDecimal n).length = if n < 10 then 1 else (toDecimal (n / 10)).length + 1 := by
  rw [toDecimal_eq,toDecimal_eq,List.length_map,List.length_map]
  split
  · rename_i h
    rw [Nat.toDigits_of_lt_base h]
    rfl
  · rename_i h
    rw [Nat.toDigits_of_base_le (by decide) (Nat.not_lt.mp h),List.length_append]
    rfl

theorem toDecimal_length_le {n k : ℕ} (h : n < 10 ^ k) (hk : 0 < k) : (toDecimal n).length ≤ k := by
  rw [toDecimal_eq,List.length_map]
  exact (Nat.length_toDigits_le_iff (by decide) hk).mpr h

end SpareNode
