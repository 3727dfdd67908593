import SpareNode.Foundation.Decimal
import SpareNode.Foundation.JsonUnambiguous

/-! # Writing JSON texts

What has to be written for a value. A text of a value denotes it whatever comes after it, and larger values are
joined from the texts of their parts.
-/
namespace SpareNode.Json
open Utf8

/-- The text of an item, in front of anything. -/
def Writes {α : Type} (Item : Bytes → α → Bytes → Prop) (text : Bytes) (a : α) : Prop := ∀ t, Item (text ++ t) a t

def commaJoin : List Bytes → Bytes
  | [] => []
  | [text] => text
  | text :: next :: rest => text ++ char ',' :: commaJoin (next :: rest)

section Lists
variable {α : Type} {Item : Bytes → α → Bytes → Prop}

theorem writes_separated {text : Bytes} {a : α} {texts : List Bytes} {l : List α} (h : Writes Item text a)
    (hrest : List.Forall₂ (Writes Item) texts l) : Writes (Separated Item) (commaJoin (text :: texts)) (a :: l) := by
  induction hrest generalizing text a with
  | nil => exact fun t => .one (h t)
  | @cons next b texts l hnext _ ih =>
    intro t
    rw [commaJoin,List.append_assoc,List.cons_append]
    exact .cons (h _) (space_refl _) (space_refl _) (ih hnext t)

theorem writes_enclosed {opening closing : Byte} {texts : List Bytes} {l : List α}
    (h : List.Forall₂ (Writes Item) texts l) :
    Writes (Enclosed opening closing Item) (opening :: (commaJoin texts ++ [closing])) l := by
  intro t
  rw [List.cons_append,List.append_assoc,List.singleton_append]
  cases h with
  | nil => exact .empty (space_refl _)
  | cons hfirst hrest => exact .items (space_refl _) (writes_separated hfirst hrest _) (space_refl _)
end Lists

def WritesString (text value : Bytes) : Prop := ∀ t, Quoted Unescaped (text ++ t) value t

theorem writes_string {text value : Bytes} (h : WritesString text value) : Writes Denotes text (.string value) := by
  intro t
  obtain ⟨r,hr,hchars⟩ := h t
  rw [hr]
  exact .string hchars

theorem writes_member {nameText name valueText : Bytes} {value : Json} (hname : WritesString nameText name)
    (hvalue : Writes Denotes valueText value) :
    Writes (Member Unescaped Denotes) (nameText ++ char ':' :: valueText) (name,value) := by
  intro t
  obtain ⟨r,hr,hchars⟩ := hname (char ':' :: (valueText ++ t))
  rw [List.append_assoc,List.cons_append,hr]
  exact .mk hchars (space_refl _) (space_refl _) (hvalue t)

theorem writes_array {texts : List Bytes} {items : List Json} (h : List.Forall₂ (Writes Denotes) texts items) :
    Writes Denotes (char '[' :: (commaJoin texts ++ [char ']'])) (.array items) :=
  fun t => .array (writes_enclosed h t)

theorem writes_object {texts : List Bytes} {members : List (Bytes × Json)}
    (h : List.Forall₂ (Writes (Member Unescaped Denotes)) texts members) :
    Writes Denotes (char '{' :: (commaJoin texts ++ [char '}'])) (.object members) :=
  fun t => .object (writes_enclosed h t)

theorem writes_null : Writes Denotes (ascii "null") .null := fun _ => .null

/-- A text that is written for a value denotes that value and no other. -/
theorem Writes.text_iff {text : Bytes} {value other : Json} (h : Writes Denotes text value) :
    Text text other ↔ other = value := by
  have htext : Text text value := by
    have hwhole := h []
    rw [List.append_nil] at hwhole
    exact ⟨text,[],space_refl _,hwhole,space_refl _⟩
  constructor
  · exact fun hother => hother.unique htext
  · rintro rfl
    exact htext

theorem toDecimal_head {n : ℕ} (h : (toDecimal n).head? = some (char '0')) : n = 0 := by
  induction n using Nat.strong_induction_on with
  | _ n ih =>
    by_cases hn : n < 10
    · have hall : ∀ i : Fin 10, (toDecimal i.val).head? = some (char '0') → i.val = 0 := by decide
      exact hall ⟨n,hn⟩ h
    · have hsplit : (toDecimal n).head? = (toDecimal (n / 10)).head? := by
        have hne := toDecimal_ne_nil (n / 10)
        rw [toDecimal_eq] at hne ⊢
        rw [toDecimal_eq,Nat.toDigits_of_base_le (by decide) (Nat.not_lt.mp hn),List.map_append]
        exact List.head?_append_of_ne_nil _ hne
      rw [hsplit] at h
      have hzero := ih (n / 10) (by omega) h
      omega

theorem toDecimal_number (n : ℕ) : Number (toDecimal n) := by
  have hinteger : IntegerPart (toDecimal n) := by
    refine ⟨toDecimal_ne_nil n,toDecimal_digits n,?_⟩
    intro h
    rw [toDecimal_head h]
    decide
  have hnumber := Number.mk (Or.inl rfl) hinteger .none .none
  simpa only [List.nil_append,List.append_nil] using hnumber

theorem numberValue_toDecimal (n : ℕ) : numberValue (toDecimal n) = n := by
  have hdigits : ∀ b ∈ toDecimal n, isDecimal b = true := List.all_eq_true.mp (toDecimal_digits n)
  have hsign : (toDecimal n).head? ≠ some (char '-') := by
    intro h
    have hdigit := hdigits (char '-') (List.mem_of_mem_head? h)
    exact absurd hdigit (by decide)
  have htake : (toDecimal n).takeWhile isDecimal = toDecimal n := by
    have happend := takeWhile_append_of (b := []) (toDecimal_digits n) nofun
    rwa [List.append_nil] at happend
  have hdrop : (toDecimal n).dropWhile isDecimal = [] := by
    have happend := dropWhile_append_of (b := []) (toDecimal_digits n) nofun
    rwa [List.append_nil] at happend
  have hzero : numeral 10 [] = 0 := rfl
  rw [numberValue,if_neg hsign,unsignedValue]
  simp [htake,hdrop,hzero,numeral_toDecimal]

theorem writes_natural (n : ℕ) : Writes Denotes (toDecimal n) (.number n) := by
  intro t
  rw [← numberValue_toDecimal n]
  exact .number (toDecimal_number n)

end SpareNode.Json
