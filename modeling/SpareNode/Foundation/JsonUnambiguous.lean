import SpareNode.Foundation.JsonGrammar

/-! # JSON texts are unambiguous

A text denotes one value at most. Where a string ends is already fixed by its bytes, a number ends at the first
byte that no number has in it, and every other value is told apart by its first byte.
-/
namespace SpareNode.Json
open Utf8

def Solid (s : Bytes) : Prop := ∀ b ∈ s.head?, isSpace b = false

theorem solid_cons {b : Byte} {s : Bytes} (h : isSpace b = false) : Solid (b :: s) := by
  intro x hx
  rwa [← Option.some.inj hx]

theorem solid_nil : Solid [] := nofun

theorem space_refl (s : Bytes) : Space s s := ⟨[],rfl,rfl⟩

theorem Space.dropWhile {s t : Bytes} (h : Space s t) (ht : Solid t) : s.dropWhile isSpace = t := by
  obtain ⟨w,hw,rfl⟩ := h
  exact dropWhile_append_of hw ht

theorem space_dropWhile (s : Bytes) : Space s (s.dropWhile isSpace) :=
  ⟨s.takeWhile isSpace,List.all_takeWhile,List.takeWhile_append_dropWhile.symm⟩

theorem Space.unique {s t t' : Bytes} (h : Space s t) (h' : Space s t') (ht : Solid t) (ht' : Solid t') : t = t' :=
  (h.dropWhile ht).symm.trans (h'.dropWhile ht')

/-- The first byte of the text is the one behind the white space or white space itself. -/
theorem Space.head {s t : Bytes} (h : Space s t) : ∀ b ∈ s.head?, isSpace b = true ∨ b ∈ t.head? := by
  obtain ⟨w,hw,rfl⟩ := h
  cases w with
  | nil => exact fun b hb => Or.inr hb
  | cons x w =>
    intro b hb
    obtain rfl := Option.some.inj hb
    exact Or.inl (List.all_eq_true.mp hw x List.mem_cons_self)

/-- A byte that stands in a string for itself, or is a part of a character that does. -/
def isPlain (b : Byte) : Bool := 0x20 ≤ b && b ≠ char '"' && b ≠ char '\\'

def Plain (piece : Bytes) : Prop := ∃ b, isPlain b = true ∧ piece = [b]

theorem Chars.append_plain {piece s text t : Bytes} (hpiece : ∀ b ∈ piece, isPlain b = true) (h : Chars Plain s text t) :
    Chars Plain (piece ++ s) (piece ++ text) t := by
  induction piece with
  | nil => exact h
  | cons b piece ih =>
    rw [List.forall_mem_cons] at hpiece
    have hitem : Item Plain ([b] ++ (piece ++ s)) [b] (piece ++ s) := .raw ⟨b,hpiece.1,rfl⟩
    have hall := Chars.cons hitem (ih hpiece.2)
    exact hall

theorem isPlain_high : ∀ b : Byte, 0x80 ≤ b → isPlain b = true := forall_byte (by decide +kernel)

theorem Unescaped.plain {piece : Bytes} (h : Unescaped piece) : ∀ b ∈ piece, isPlain b = true := by
  obtain ⟨v,hcontrol,hquote,hbackslash,rfl⟩ := h
  intro b hb
  by_cases hv : v.val < 0x80
  · rw [encode_of_ascii hv,List.mem_singleton] at hb
    have hnat : b.toNat = v.val := by
      rw [hb]
      exact UInt8.toNat_ofNat_of_lt' (hv.trans (by decide))
    rw [← hnat] at hcontrol hquote hbackslash
    simp only [isPlain,Bool.and_eq_true,decide_eq_true_eq,ne_eq]
    exact ⟨⟨UInt8.le_iff_toNat_le.mpr hcontrol,fun h => hquote (congrArg UInt8.toNat h)⟩,
      fun h => hbackslash (congrArg UInt8.toNat h)⟩
  · exact isPlain_high b (encode_high (not_lt.mp hv) hb)

theorem Item.plain_of_ne_raw {s piece u text t : Bytes} (h : Item Unescaped s piece u) (hrest : Chars Plain u text t) :
    Chars Plain s (piece ++ text) t := by
  cases h with
  | raw hpiece => exact hrest.append_plain hpiece.plain
  | short hletter => exact .cons (.short hletter) hrest
  | unit v hquad => exact .cons (.unit v hquad) hrest
  | pair v hx hy hv hhigh hlow => exact .cons (.pair v hx hy hv hhigh hlow) hrest

/-- A string is read in the same way without looking at the encoding of its characters. -/
theorem Chars.plain {s text t : Bytes} (h : Chars Unescaped s text t) : Chars Plain s text t := by
  induction h with
  | close => exact .close
  | cons hitem _ ih => exact hitem.plain_of_ne_raw ih

theorem HexQuad.unique {quad quad' t t' : Bytes} {v v' : ℕ} (h : HexQuad quad v) (h' : HexQuad quad' v')
    (hs : quad ++ t = quad' ++ t') : v = v' ∧ t = t' := by
  obtain ⟨rfl,rfl⟩ := List.append_inj hs (h.length.trans h'.length.symm)
  exact ⟨h.value.symm.trans h'.value,rfl⟩

/-- What may follow the digits of a unicode escape: nothing, or the second half of a surrogate pair. -/
inductive Completed : ℕ → Bytes → Bytes → Bytes → Prop
  | unit {t : Bytes} (v : Scalar) : Completed v.val t (encode v) t
  | pair {low t : Bytes} {x y : ℕ} (v : Scalar) (hx : x < 0x400) (hy : y < 0x400) (hv : v.val = 0x10000 + x * 0x400 + y)
      (hlow : HexQuad low (0xDC00 + y)) :
      Completed (0xD800 + x) (char '\\' :: char 'u' :: (low ++ t)) (encode v) t

theorem not_scalar_surrogate {x : ℕ} (hx : x < 0x800) : isScalarValue (0xD800 + x) = false := by
  simp only [isScalarValue,Bool.and_eq_false_iff,Bool.or_eq_false_iff,decide_eq_false_iff_not]
  omega

theorem Completed.unique {n : ℕ} {s p p' t t' : Bytes} (h : Completed n s p t) (h' : Completed n s p' t') :
    p = p' ∧ t = t' := by
  cases h with
  | unit v =>
    generalize hn : v.val = n at h'
    cases h' with
    | unit v' =>
      obtain rfl : v = v' := Subtype.ext hn
      exact ⟨rfl,rfl⟩
    | pair v' hx =>
      have hscalar := not_scalar_surrogate (hx.trans (by decide))
      rw [← hn,v.property] at hscalar
      cases hscalar
  | @pair low t x y v hx hy hv hlow =>
    generalize hn : 0xD800 + x = n at h'
    generalize hs : char '\\' :: char 'u' :: (low ++ t) = s at h'
    cases h' with
    | unit v' =>
      have hscalar := not_scalar_surrogate (hx.trans (by decide))
      rw [hn,v'.property] at hscalar
      cases hscalar
    | @pair low' t' x' y' v' hx' hy' hv' hlow' =>
      obtain rfl : x = x' := by omega
      obtain ⟨hvalue,rfl⟩ := hlow.unique hlow' (List.cons.inj (List.cons.inj hs).2).2
      obtain rfl : y = y' := by omega
      obtain rfl : v = v' := Subtype.ext (hv.trans hv'.symm)
      exact ⟨rfl,rfl⟩

theorem item_plain_iff {s p t : Bytes} : Item Plain s p t ↔
    (∃ b, isPlain b = true ∧ s = b :: t ∧ p = [b]) ∨
    (∃ letter b, (letter,b) ∈ shortEscapes ∧ s = char '\\' :: letter :: t ∧ p = [b]) ∨
    ∃ quad value rest, HexQuad quad value ∧ s = char '\\' :: char 'u' :: (quad ++ rest) ∧ Completed value rest p t := by
  constructor
  · intro h
    cases h with
    | raw hpiece =>
      obtain ⟨b,hb,rfl⟩ := hpiece
      exact Or.inl ⟨b,hb,rfl,rfl⟩
    | short hletter => exact Or.inr (Or.inl ⟨_,_,hletter,rfl,rfl⟩)
    | unit v hquad => exact Or.inr (Or.inr ⟨_,_,_,hquad,rfl,.unit v⟩)
    | pair v hx hy hv hhigh hlow => exact Or.inr (Or.inr ⟨_,_,_,hhigh,rfl,.pair v hx hy hv hlow⟩)
  · rintro (⟨b,hb,rfl,rfl⟩ | ⟨letter,b,hletter,rfl,rfl⟩ | ⟨quad,value,rest,hquad,rfl,hcompleted⟩)
    · exact Item.raw (show Plain [b] from ⟨b,hb,rfl⟩)
    · exact .short hletter
    · cases hcompleted with
      | unit v => exact .unit v hquad
      | pair v hx hy hv hlow => exact .pair v hx hy hv hquad hlow

theorem shortEscapes_unique : ∀ entry ∈ shortEscapes, ∀ other ∈ shortEscapes, entry.1 = other.1 → entry = other :=
  fun _ hentry _ hother => List.inj_on_of_nodup_map (by decide) hentry hother

theorem shortEscapes_letter : ∀ entry ∈ shortEscapes, entry.1 ≠ char 'u' := by
  have hall : shortEscapes.all (fun entry => entry.1 != char 'u') = true := by decide
  simpa only [List.all_eq_true,bne_iff_ne] using hall

theorem isPlain_not : isPlain (char '"') = false ∧ isPlain (char '\\') = false := by decide

theorem Item.unique {s p p' t t' : Bytes} (h : Item Plain s p t) (h' : Item Plain s p' t') : p = p' ∧ t = t' := by
  rcases item_plain_iff.mp h with ⟨b,hb,hs,rfl⟩ | ⟨letter,b,hletter,hs,rfl⟩ | ⟨quad,value,rest,hquad,hs,hcompleted⟩ <;>
    rcases item_plain_iff.mp h' with ⟨b',hb',hs',rfl⟩ | ⟨letter',b',hletter',hs',rfl⟩ |
      ⟨quad',value',rest',hquad',hs',hcompleted'⟩ <;>
    rw [hs] at hs'
  · obtain ⟨rfl,rfl⟩ := List.cons.inj hs'
    exact ⟨rfl,rfl⟩
  · rw [(List.cons.inj hs').1,isPlain_not.2] at hb
    cases hb
  · rw [(List.cons.inj hs').1,isPlain_not.2] at hb
    cases hb
  · rw [← (List.cons.inj hs').1,isPlain_not.2] at hb'
    cases hb'
  · obtain ⟨rfl,rfl⟩ := List.cons.inj (List.cons.inj hs').2
    obtain ⟨-,rfl⟩ := Prod.mk.inj (shortEscapes_unique _ hletter _ hletter' rfl)
    exact ⟨rfl,rfl⟩
  · exact absurd (List.cons.inj (List.cons.inj hs').2).1 (shortEscapes_letter _ hletter)
  · rw [← (List.cons.inj hs').1,isPlain_not.2] at hb'
    cases hb'
  · exact absurd (List.cons.inj (List.cons.inj hs').2).1.symm (shortEscapes_letter _ hletter')
  · obtain ⟨rfl,rfl⟩ := hquad.unique hquad' (List.cons.inj (List.cons.inj hs').2).2
    exact hcompleted.unique hcompleted'

theorem Item.not_quote {s p t : Bytes} (h : Item Plain (char '"' :: s) p t) : False := by
  rcases item_plain_iff.mp h with ⟨b,hb,hs,-⟩ | ⟨letter,b,-,hs,-⟩ | ⟨quad,value,rest,-,hs,-⟩
  · rw [← (List.cons.inj hs).1,isPlain_not.1] at hb
    cases hb
  · exact absurd (List.cons.inj hs).1 (by decide)
  · exact absurd (List.cons.inj hs).1 (by decide)

theorem Chars.unique_plain {s text text' t t' : Bytes} (h : Chars Plain s text t) (h' : Chars Plain s text' t') :
    text = text' ∧ t = t' := by
  induction h generalizing text' with
  | close =>
    cases h' with
    | close => exact ⟨rfl,rfl⟩
    | cons hitem _ => exact (hitem.not_quote).elim
  | cons hitem _ ih =>
    cases h' with
    | close => exact (hitem.not_quote).elim
    | cons hitem' h' =>
      obtain ⟨rfl,rfl⟩ := hitem.unique hitem'
      obtain ⟨rfl,rfl⟩ := ih h'
      exact ⟨rfl,rfl⟩

theorem Chars.unique {s text text' t t' : Bytes} (h : Chars Unescaped s text t) (h' : Chars Unescaped s text' t') :
    text = text' ∧ t = t' :=
  h.plain.unique_plain h'.plain

def isNumberByte (b : Byte) : Bool := isDecimal b || (ascii "+-.eE").contains b

def Stop (s : Bytes) : Prop := ∀ b ∈ s.head?, isNumberByte b = false

theorem isDecimal_numberByte {s : Bytes} (h : s.all isDecimal = true) : s.all isNumberByte = true := by
  rw [List.all_eq_true] at h ⊢
  intro b hb
  rw [isNumberByte,h b hb,Bool.true_or]

theorem Number.bytes {s : Bytes} (h : Number s) : s.all isNumberByte = true := by
  obtain ⟨hsign,hinteger,hfraction,hexponent⟩ := h
  rw [List.all_append,List.all_append,List.all_append,isDecimal_numberByte hinteger.digits,Bool.true_and]
  refine Bool.and_eq_true_iff.mpr ⟨?_,Bool.and_eq_true_iff.mpr ⟨?_,?_⟩⟩
  · rcases hsign with rfl | rfl <;> decide
  · cases hfraction with
    | none => rfl
    | some hne hdigits => exact Bool.and_eq_true_iff.mpr ⟨by decide,isDecimal_numberByte hdigits⟩
  · cases hexponent with
    | none => rfl
    | some he hsign hne hdigits =>
      rw [List.all_cons,List.all_append,isDecimal_numberByte hdigits,Bool.and_true]
      rcases he with rfl | rfl <;> rcases hsign with rfl | rfl | rfl <;> decide

theorem Number.unique {s s' t t' : Bytes} (h : Number s) (h' : Number s') (ht : Stop t) (ht' : Stop t')
    (hs : s ++ t = s' ++ t') : s = s' ∧ t = t' := by
  have hsame : s = s' := by
    rw [← takeWhile_append_of h.bytes ht,hs,takeWhile_append_of h'.bytes ht']
  subst hsame
  exact ⟨rfl,List.append_cancel_left hs⟩

theorem Number.head {s : Bytes} (h : Number s) : ∃ b r, s = b :: r ∧ (isDecimal b || b = char '-') = true := by
  obtain ⟨hsign,hinteger,-,-⟩ := h
  rcases hsign with rfl | rfl
  · obtain ⟨b,r,rfl⟩ := List.exists_cons_of_ne_nil hinteger.nonempty
    have hb := List.all_eq_true.mp hinteger.digits b List.mem_cons_self
    exact ⟨b,_,rfl,by rw [hb,Bool.true_or]⟩
  · exact ⟨char '-',_,rfl,by decide⟩

inductive Kind where
  | null | true | false | number | string | array | object
deriving DecidableEq

def kind : Json → Kind
  | .null => .null
  | .boolean value => if value then .true else .false
  | .number _ => .number
  | .string _ => .string
  | .array _ => .array
  | .object _ => .object

/-- The kind of the values that begin with a byte. -/
def leadKind (b : Byte) : Option Kind :=
  if b = char 'n' then some .null
  else if b = char 't' then some .true
  else if b = char 'f' then some .false
  else if isDecimal b || b = char '-' then some .number
  else if b = char '"' then some .string
  else if b = char '[' then some .array
  else if b = char '{' then some .object
  else none

theorem leadKind_number : ∀ b, (isDecimal b || b = char '-') = true → leadKind b = some .number :=
  forall_byte (by decide +kernel)

theorem leadKind_solid : ∀ b, (leadKind b).isSome = true → isSpace b = false ∧ b ≠ char ']' :=
  forall_byte (by decide +kernel)

theorem Enclosed.head {α : Type} {opening closing : Byte} {Item : Bytes → α → Bytes → Prop} {s t : Bytes} {l : List α}
    (h : Enclosed opening closing Item s l t) : ∃ r, s = opening :: r := by
  cases h <;> exact ⟨_,rfl⟩

theorem Denotes.head {s t : Bytes} {value : Json} (h : Denotes s value t) :
    ∃ b r, s = b :: r ∧ leadKind b = some value.kind := by
  cases h with
  | null => exact ⟨_,_,rfl,by decide⟩
  | true => exact ⟨_,_,rfl,by decide⟩
  | false => exact ⟨_,_,rfl,by decide⟩
  | number h =>
    obtain ⟨b,r,rfl,hb⟩ := h.head
    exact ⟨b,_,rfl,leadKind_number b hb⟩
  | string => exact ⟨_,_,rfl,rfl⟩
  | array h =>
    obtain ⟨r,rfl⟩ := h.head
    exact ⟨_,_,rfl,rfl⟩
  | object h =>
    obtain ⟨r,rfl⟩ := h.head
    exact ⟨_,_,rfl,rfl⟩

theorem Denotes.kind_unique {s t t' : Bytes} {value value' : Json} (h : Denotes s value t) (h' : Denotes s value' t') :
    value.kind = value'.kind := by
  obtain ⟨b,r,hs,hkind⟩ := h.head
  obtain ⟨b',r',hs',hkind'⟩ := h'.head
  obtain ⟨rfl,-⟩ := List.cons.inj (hs.symm.trans hs')
  exact Option.some.inj (hkind.symm.trans hkind')

theorem Denotes.solid {s t : Bytes} {value : Json} (h : Denotes s value t) : Solid s ∧ s.head? ≠ some (char ']') := by
  obtain ⟨b,r,rfl,hkind⟩ := h.head
  have hlead := leadKind_solid b (by rw [hkind]; rfl)
  exact ⟨solid_cons hlead.1,fun hsame => hlead.2 (Option.some.inj hsame)⟩

section Lists
variable {α : Type} {Item : Bytes → α → Bytes → Prop} {closing : Byte}

/-- An item is determined by its text, as long as no number goes on behind it. -/
def UniqueAt (Item : Bytes → α → Bytes → Prop) (a : α) : Prop :=
  ∀ s t t' a', Item s a t → Item s a' t' → Stop t → Stop t' → a = a' ∧ t = t'

structure Closing (closing : Byte) : Prop where
  solid : isSpace closing = false
  stop : isNumberByte closing = false
  comma : closing ≠ char ','

theorem isSpace_stop : ∀ b, isSpace b = true → isNumberByte b = false := forall_byte (by decide +kernel)

theorem Space.stop {s t : Bytes} (h : Space s t) (ht : Stop t) : Stop s := by
  intro b hb
  rcases h.head b hb with hspace | hmem
  · exact isSpace_stop b hspace
  · exact ht b hmem

theorem stop_cons {b : Byte} {s : Bytes} (h : isNumberByte b = false) : Stop (b :: s) := by
  intro x hx
  rwa [← Option.some.inj hx]

theorem Separated.head {s t : Bytes} {l : List α} (h : Separated Item s l t) : ∃ a u, Item s a u := by
  cases h with
  | one h => exact ⟨_,_,h⟩
  | cons h => exact ⟨_,_,h⟩

theorem Separated.unique (hclosing : Closing closing) (hsolid : ∀ s a t, Item s a t → Solid s) {s t t' r r' : Bytes}
    {l l' : List α} (h : Separated Item s l t) (h' : Separated Item s l' t') (hunique : ∀ a ∈ l, UniqueAt Item a)
    (ht : Space t (closing :: r)) (ht' : Space t' (closing :: r')) : l = l' ∧ t = t' := by
  have hcomma : isSpace (char ',') = false ∧ isNumberByte (char ',') = false := by decide
  have hstop {t r : Bytes} (ht : Space t (closing :: r)) : Stop t := ht.stop (stop_cons hclosing.stop)
  induction h generalizing l' with
  | one hitem =>
    rw [List.forall_mem_singleton] at hunique
    cases h' with
    | one hitem' =>
      obtain ⟨rfl,rfl⟩ := hunique _ _ _ _ hitem hitem' (hstop ht) (hstop ht')
      exact ⟨rfl,rfl⟩
    | cons hitem' hnext' =>
      obtain ⟨-,rfl⟩ := hunique _ _ _ _ hitem hitem' (hstop ht) (hnext'.stop (stop_cons hcomma.2))
      have hsame := ht.unique hnext' (solid_cons hclosing.solid) (solid_cons hcomma.1)
      exact absurd (List.cons.inj hsame).1 hclosing.comma
  | cons hitem hnext hgap hrest ih =>
    rw [List.forall_mem_cons] at hunique
    cases h' with
    | one hitem' =>
      obtain ⟨-,rfl⟩ := hunique.1 _ _ _ _ hitem hitem' (hnext.stop (stop_cons hcomma.2)) (hstop ht')
      have hsame := ht'.unique hnext (solid_cons hclosing.solid) (solid_cons hcomma.1)
      exact absurd (List.cons.inj hsame).1 hclosing.comma
    | cons hitem' hnext' hgap' hrest' =>
      obtain ⟨rfl,rfl⟩ := hunique.1 _ _ _ _ hitem hitem' (hnext.stop (stop_cons hcomma.2))
        (hnext'.stop (stop_cons hcomma.2))
      obtain ⟨-,rfl⟩ := List.cons.inj (hnext.unique hnext' (solid_cons hcomma.1) (solid_cons hcomma.1))
      obtain ⟨a,u,hhead⟩ := hrest.head
      obtain ⟨a',u',hhead'⟩ := hrest'.head
      obtain rfl := hgap.unique hgap' (hsolid _ _ _ hhead) (hsolid _ _ _ hhead')
      obtain ⟨rfl,rfl⟩ := ih hrest' hunique.2 ht
      exact ⟨rfl,rfl⟩

theorem Enclosed.unique {opening : Byte} (hclosing : Closing closing) (hsolid : ∀ s a t, Item s a t → Solid s)
    (hopen : ∀ s a t, Item s a t → s.head? ≠ some closing) {s t t' : Bytes} {l l' : List α}
    (h : Enclosed opening closing Item s l t) (h' : Enclosed opening closing Item s l' t')
    (hunique : ∀ a ∈ l, UniqueAt Item a) : l = l' ∧ t = t' := by
  have hsolid' {r : Bytes} : Solid (closing :: r) := solid_cons hclosing.solid
  cases h with
  | empty hclose =>
    cases h' with
    | empty hclose' => exact ⟨rfl,(List.cons.inj (hclose.unique hclose' hsolid' hsolid')).2⟩
    | items hspace' hitems' =>
      obtain ⟨a,u,hhead⟩ := hitems'.head
      have hsame := hclose.unique hspace' hsolid' (hsolid _ _ _ hhead)
      exact absurd (congrArg List.head? hsame).symm (hopen _ _ _ hhead)
  | items hspace hitems hclose =>
    obtain ⟨a,u,hhead⟩ := hitems.head
    cases h' with
    | empty hclose' =>
      have hsame := hclose'.unique hspace hsolid' (hsolid _ _ _ hhead)
      exact absurd (congrArg List.head? hsame).symm (hopen _ _ _ hhead)
    | items hspace' hitems' hclose' =>
      obtain ⟨a',u',hhead'⟩ := hitems'.head
      obtain rfl := hspace.unique hspace' (hsolid _ _ _ hhead) (hsolid _ _ _ hhead')
      obtain ⟨rfl,rfl⟩ := hitems.unique hclosing hsolid hitems' hunique hclose hclose'
      exact ⟨rfl,(List.cons.inj (hclose.unique hclose' hsolid' hsolid')).2⟩

theorem Member.solid {Raw : Bytes → Prop} {Value : Bytes → α → Bytes → Prop} {s t : Bytes} {member : Bytes × α}
    (h : Member Raw Value s member t) : Solid s ∧ s.head? = some (char '"') := by
  cases h
  exact ⟨solid_cons (by decide),rfl⟩

theorem Member.unique {Value : Bytes → α → Bytes → Prop} (hsolid : ∀ s a t, Value s a t → Solid s)
    {name : Bytes} {a : α} (h : UniqueAt Value a) : UniqueAt (Member Unescaped Value) (name,a) := by
  rintro s t t' ⟨name',a'⟩ hmember hmember' ht ht'
  have hcolon : Solid (char ':' :: s) ∧ isSpace (char ':') = false := ⟨solid_cons (by decide),by decide⟩
  cases hmember with
  | mk hname hbefore hafter hvalue =>
    cases hmember' with
    | mk hname' hbefore' hafter' hvalue' =>
      obtain ⟨rfl,rfl⟩ := hname.unique hname'
      obtain ⟨-,rfl⟩ := List.cons.inj (hbefore.unique hbefore' (solid_cons hcolon.2) (solid_cons hcolon.2))
      obtain rfl := hafter.unique hafter' (hsolid _ _ _ hvalue) (hsolid _ _ _ hvalue')
      obtain ⟨rfl,rfl⟩ := h _ _ _ _ hvalue hvalue' ht ht'
      exact ⟨rfl,rfl⟩
end Lists

/-- How the text of a value is built up. -/
def Shape (s t : Bytes) : Json → Prop
  | .null => s = ascii "null" ++ t
  | .boolean value => s = ascii (if value then "true" else "false") ++ t
  | .number value => ∃ text, Number text ∧ s = text ++ t ∧ value = numberValue text
  | .string text => ∃ r, s = char '"' :: r ∧ Chars Unescaped r text t
  | .array items => Enclosed (char '[') (char ']') Denotes s items t
  | .object members => Enclosed (char '{') (char '}') (Member Unescaped Denotes) s members t

theorem Denotes.shape {s t : Bytes} {value : Json} (h : Denotes s value t) : Shape s t value := by
  cases h with
  | null => rfl
  | true => rfl
  | false => rfl
  | number h => exact ⟨_,h,rfl,rfl⟩
  | string h => exact ⟨_,rfl,h⟩
  | array h => exact h
  | object h => exact h

theorem Denotes.unique (value : Json) : UniqueAt Denotes value := by
  induction hsize : sizeOf value using Nat.strong_induction_on generalizing value with
  | _ n ih =>
    intro s t t' value' h h' ht ht'
    have hkind := h.kind_unique h'
    have hshape := h.shape
    have hshape' := h'.shape
    cases value with
    | null =>
      cases value' with
      | null => exact ⟨rfl,List.append_cancel_left (hshape.symm.trans hshape')⟩
      | boolean b => cases b <;> cases hkind
      | _ => cases hkind
    | boolean b =>
      cases value' with
      | boolean b' =>
        obtain rfl : b = b' := by
          revert hkind
          cases b <;> cases b' <;> simp [kind]
        exact ⟨rfl,List.append_cancel_left (hshape.symm.trans hshape')⟩
      | _ => cases b <;> cases hkind
    | number value =>
      cases value' with
      | number value' =>
        obtain ⟨text,hnumber,rfl,rfl⟩ := hshape
        obtain ⟨text',hnumber',hs,rfl⟩ := hshape'
        obtain ⟨rfl,rfl⟩ := hnumber.unique hnumber' ht ht' hs
        exact ⟨rfl,rfl⟩
      | boolean b => cases b <;> cases hkind
      | _ => cases hkind
    | string text =>
      cases value' with
      | string text' =>
        obtain ⟨r,rfl,hchars⟩ := hshape
        obtain ⟨r',hs,hchars'⟩ := hshape'
        obtain ⟨-,rfl⟩ := List.cons.inj hs
        obtain ⟨rfl,rfl⟩ := hchars.unique hchars'
        exact ⟨rfl,rfl⟩
      | boolean b => cases b <;> cases hkind
      | _ => cases hkind
    | array items =>
      cases value' with
      | array items' =>
        have hitems (a : Json) (ha : a ∈ items) : UniqueAt Denotes a := by
          refine ih (sizeOf a) ?_ a rfl
          have hmem := List.sizeOf_lt_of_mem ha
          simp only [← hsize,Json.array.sizeOf_spec]
          omega
        obtain ⟨rfl,rfl⟩ := Enclosed.unique ⟨by decide,by decide,by decide⟩ (fun _ _ _ h => h.solid.1)
          (fun _ _ _ h => h.solid.2) hshape hshape' hitems
        exact ⟨rfl,rfl⟩
      | boolean b => cases b <;> cases hkind
      | _ => cases hkind
    | object members =>
      cases value' with
      | object members' =>
        have hmembers (member : Bytes × Json) (hmember : member ∈ members) : UniqueAt (Member Unescaped Denotes) member := by
          refine Member.unique (fun _ _ _ h => h.solid.1) (ih (sizeOf member.2) ?_ member.2 rfl)
          have hmem := List.sizeOf_lt_of_mem hmember
          have hpair : sizeOf member = 1 + sizeOf member.1 + sizeOf member.2 := rfl
          simp only [← hsize,Json.object.sizeOf_spec]
          omega
        obtain ⟨rfl,rfl⟩ := Enclosed.unique ⟨by decide,by decide,by decide⟩ (fun _ _ _ h => h.solid.1)
          (fun _ _ _ h => by rw [h.solid.2]; decide) hshape hshape' hmembers
        exact ⟨rfl,rfl⟩
      | boolean b => cases b <;> cases hkind
      | _ => cases hkind

theorem Text.unique {s : Bytes} {value value' : Json} (h : Text s value) (h' : Text s value') : value = value' := by
  obtain ⟨t,u,hstart,hvalue,hend⟩ := h
  obtain ⟨t',u',hstart',hvalue',hend'⟩ := h'
  obtain rfl := hstart.unique hstart' hvalue.solid.1 hvalue'.solid.1
  exact (Denotes.unique value _ _ _ _ hvalue hvalue' (hend.stop nofun) (hend'.stop nofun)).1

end SpareNode.Json
