import SpareNode.Foundation.JsonUnambiguous

/-! # JSON texts in valid UTF-8

A reader may take the bytes of a string as they are. Where the text is valid UTF-8 it reads the characters of the
grammar all the same, since every byte with a meaning is a character of its own.
-/
namespace SpareNode.Json
open Utf8

section Carries
variable {α β : Type} {Rest : Bytes → Prop} {P : Bytes → α → Bytes → Prop} {Q : Bytes → β → Bytes → Prop} {f : α → β}

/-- What is known of the rest of a text stays known behind a byte of its own. -/
def Advances (Rest : Bytes → Prop) : Prop := ∀ b s, b < 0x80 → Rest (b :: s) → Rest s

/-- A reading in one way is a reading in the other, and ends where the rest is known again. -/
def Carries (Rest : Bytes → Prop) (P : Bytes → α → Bytes → Prop) (Q : Bytes → β → Bytes → Prop) (f : α → β) : Prop :=
  ∀ s a t, P s a t → Rest s → Q s (f a) t ∧ Rest t

theorem isSpace_ascii : ∀ b, isSpace b = true → b < 0x80 := forall_byte (by decide +kernel)

theorem Advances.space (hrest : Advances Rest) {s t : Bytes} (h : Space s t) (hs : Rest s) : Rest t := by
  obtain ⟨w,hw,rfl⟩ := h
  induction w with
  | nil => exact hs
  | cons b w ih =>
    rw [List.all_cons,Bool.and_eq_true] at hw
    exact ih hw.2 (hrest b _ (isSpace_ascii b hw.1) hs)

theorem Carries.separated (hrest : Advances Rest) (h : Carries Rest P Q f) :
    Carries Rest (Separated P) (Separated Q) (List.map f) := by
  intro s l t hl hs
  induction hl with
  | one hitem =>
    obtain ⟨hitem,ht⟩ := h _ _ _ hitem hs
    exact ⟨.one hitem,ht⟩
  | cons hitem hcomma hnext _ ih =>
    obtain ⟨hitem,ht⟩ := h _ _ _ hitem hs
    obtain ⟨hmore,hend⟩ := ih (hrest.space hnext (hrest (char ',') _ (by decide) (hrest.space hcomma ht)))
    exact ⟨.cons hitem hcomma hnext hmore,hend⟩

theorem Carries.enclosed (opening closing : Byte) (hopening : opening < 0x80) (hclosing : closing < 0x80)
    (hrest : Advances Rest) (h : Carries Rest P Q f) :
    Carries Rest (Enclosed opening closing P) (Enclosed opening closing Q) (List.map f) := by
  intro s l t hl hs
  cases hl with
  | empty hclose => exact ⟨.empty hclose,hrest closing _ hclosing (hrest.space hclose (hrest opening _ hopening hs))⟩
  | items hopen hitems hclose =>
    obtain ⟨hitems,hu⟩ := h.separated hrest _ _ _ hitems (hrest.space hopen (hrest opening _ hopening hs))
    exact ⟨.items hopen hitems hclose,hrest closing _ hclosing (hrest.space hclose hu)⟩

theorem Carries.member {Raw Raw' : Bytes → Prop} (hrest : Advances Rest) (hchars : Carries Rest (Chars Raw) (Chars Raw') id)
    (h : Carries Rest P Q f) :
    Carries Rest (Member Raw P) (Member Raw' Q) (fun member => (member.1,f member.2)) := by
  intro s member t hmember hs
  cases hmember with
  | mk hname hcolon hnext hvalue =>
    obtain ⟨hname,ht⟩ := hchars _ _ _ hname (hrest (char '"') _ (by decide) hs)
    obtain ⟨hvalue,hend⟩ := h _ _ _ hvalue
      (hrest.space hnext (hrest (char ':') _ (by decide) (hrest.space hcolon ht)))
    exact ⟨.mk hname hcolon hnext hvalue,hend⟩

theorem Carries.quoted {Raw Raw' : Bytes → Prop} (hrest : Advances Rest) (h : Carries Rest (Chars Raw) (Chars Raw') id) :
    Carries Rest (Quoted Raw) (Quoted Raw') id := by
  rintro s text t ⟨r,rfl,hchars⟩ hs
  obtain ⟨hchars,ht⟩ := h _ _ _ hchars (hrest (char '"') _ (by decide) hs)
  exact ⟨⟨r,rfl,hchars⟩,ht⟩

theorem advances_true : Advances (fun _ => True) := fun _ _ _ _ => trivial

theorem Separated.of_map {s t : Bytes} {l : List α} (h : Separated Q s (l.map f) t) :
    Separated (fun s a t => Q s (f a) t) s l t := by
  generalize hmap : l.map f = m at h
  induction h generalizing l with
  | one hitem =>
    obtain ⟨a,rfl,rfl⟩ := List.map_eq_singleton_iff.mp hmap
    exact .one hitem
  | cons hitem hcomma hnext _ ih =>
    obtain ⟨a,more,rfl,rfl,hmore⟩ := List.map_eq_cons_iff.mp hmap
    exact .cons hitem hcomma hnext (ih hmore)

theorem Enclosed.of_map {opening closing : Byte} {s t : Bytes} {l : List α} (h : Enclosed opening closing Q s (l.map f) t) :
    Enclosed opening closing (fun s a t => Q s (f a) t) s l t := by
  generalize hmap : l.map f = m at h
  cases h with
  | empty hclose =>
    rw [List.map_eq_nil_iff.mp hmap]
    exact .empty hclose
  | items hopen hitems hclose =>
    rw [← hmap] at hitems
    exact .items hopen hitems.of_map hclose

theorem Separated.item {s t : Bytes} {l : List α} (h : Separated P s l t) : ∀ a ∈ l, ∃ s t, P s a t := by
  induction h with
  | one hitem => exact List.forall_mem_singleton.mpr ⟨_,_,hitem⟩
  | cons hitem _ _ _ ih => exact List.forall_mem_cons.mpr ⟨⟨_,_,hitem⟩,ih⟩

theorem Enclosed.item {opening closing : Byte} {s t : Bytes} {l : List α} (h : Enclosed opening closing P s l t) :
    ∀ a ∈ l, ∃ s t, P s a t := by
  cases h with
  | empty => nofun
  | items _ hitems _ => exact hitems.item
end Carries

theorem advances_isValid : Advances (fun s => isValid s = true) := by
  intro b s hb hs
  rwa [isValid_ascii_cons hb] at hs

theorem isDigit_ascii : ∀ b, isDigit 16 b = true → b < 0x80 := forall_byte (by decide +kernel)

theorem HexQuad.ascii {quad : Bytes} {value : ℕ} (h : HexQuad quad value) : ∀ b ∈ quad, b < 0x80 :=
  fun b hb => isDigit_ascii b (List.all_eq_true.mp h.digits b hb)

theorem shortEscapes_ascii : ∀ entry ∈ shortEscapes, entry.1 < 0x80 ∧ entry.2 < 0x80 := by
  have hall : shortEscapes.all (fun entry => decide (entry.1 < 0x80) && decide (entry.2 < 0x80)) = true := by decide
  simpa only [List.all_eq_true,Bool.and_eq_true,decide_eq_true_eq] using hall

/-- The bytes of a character belong to the string together. -/
theorem Chars.drop_plain {piece s text t : Bytes} (hpiece : ∀ b ∈ piece, isPlain b = true)
    (h : Chars Plain (piece ++ s) text t) : ∃ more, text = piece ++ more ∧ Chars Plain s more t := by
  induction piece generalizing text with
  | nil => exact ⟨text,rfl,h⟩
  | cons b piece ih =>
    rw [List.forall_mem_cons] at hpiece
    rw [List.cons_append] at h
    have hitem : Item Plain (b :: (piece ++ s)) [b] (piece ++ s) := item_plain_iff.mpr (Or.inl ⟨b,hpiece.1,rfl,rfl⟩)
    generalize hs : b :: (piece ++ s) = whole at h
    cases h with
    | close =>
      rw [(List.cons.inj hs).1,isPlain_not.1] at hpiece
      cases hpiece.1
    | cons hitem' hmore =>
      rw [← hs] at hitem'
      obtain ⟨rfl,rfl⟩ := hitem.unique hitem'
      obtain ⟨more,rfl,hrest⟩ := ih hpiece.2 hmore
      exact ⟨more,rfl,hrest⟩

theorem isPlain_unescaped {b : Byte} (hb : isPlain b = true) (hascii : b < 0x80) : Unescaped [b] := by
  simp only [isPlain,Bool.and_eq_true,decide_eq_true_eq] at hb
  have hlt : b.toNat < 0x80 := hascii
  have hscalar : isScalarValue b.toNat = true := by
    simp only [isScalarValue,Bool.and_eq_true,Bool.or_eq_true,decide_eq_true_eq]
    omega
  refine ⟨⟨b.toNat,hscalar⟩,hb.1.1,fun h => hb.1.2 (UInt8.toNat_inj.mp h),fun h => hb.2 (UInt8.toNat_inj.mp h),?_⟩
  rw [encode_of_ascii hlt,UInt8.ofNat_toNat]

theorem isPlain_unescaped_high {v : Scalar} {b : Byte} (hb : b ∈ encode v) (hhigh : 0x80 ≤ b) : Unescaped (encode v) := by
  have hv : 0x80 ≤ v.val := by
    by_contra hlow
    rw [encode_of_ascii (not_le.mp hlow),List.mem_singleton] at hb
    rw [hb,UInt8.le_iff_toNat_le,UInt8.toNat_ofNat_of_lt' ((not_le.mp hlow).trans (by decide))] at hhigh
    exact hlow hhigh
  have hascii : (char '"').toNat < 0x80 ∧ (char '\\').toNat < 0x80 := by decide
  exact ⟨v,by omega,by omega,by omega,rfl⟩

/-- In valid UTF-8 the bytes of a string are characters. -/
theorem chars_unescaped : Carries (fun s => isValid s = true) (Chars Plain) (Chars Unescaped) id := by
  intro s text t h hs
  induction hlength : s.length using Nat.strong_induction_on generalizing s text with
  | _ n ih =>
    have hshorter {u more : Bytes} (hu : u.length < n) (h : Chars Plain u more t) (hvalid : isValid u = true) :
        Chars Unescaped u more t ∧ isValid t = true := ih u.length hu u more h hvalid rfl
    cases h with
    | close => exact ⟨.close,advances_isValid (char '"') t (by decide) hs⟩
    | @cons _ u _ piece more hitem hmore =>
      rcases item_plain_iff.mp hitem with ⟨b,hb,rfl,rfl⟩ | ⟨letter,b,hletter,rfl,rfl⟩ |
        ⟨quad,value,middle,hquad,rfl,hcompleted⟩
      · by_cases hascii : b < 0x80
        · rw [isValid_ascii_cons hascii] at hs
          obtain ⟨hmore,ht⟩ := hshorter (by rw [← hlength]; simp) hmore hs
          exact ⟨.cons (.raw (isPlain_unescaped hb hascii)) hmore,ht⟩
        · -- the bytes up to the next character are all outside ASCII
          obtain ⟨scalar,hread,hvalid⟩ := isValid_cons_iff.mp hs
          obtain ⟨v,after,hbytes,rfl⟩ := decodeOne_iff.mp hread
          rw [hbytes,List.drop_left] at hvalid
          obtain ⟨first,rest,hencode⟩ := List.exists_cons_of_ne_nil (encode_ne_nil v)
          rw [hencode] at hbytes
          obtain ⟨rfl,rfl⟩ := List.cons.inj hbytes
          have hunescaped : Unescaped (encode v) :=
            isPlain_unescaped_high (by rw [hencode]; exact List.mem_cons_self) (UInt8.not_lt.mp hascii)
          have hplain := hunescaped.plain
          rw [hencode,List.forall_mem_cons] at hplain
          obtain ⟨more,rfl,hrest⟩ := Chars.drop_plain hplain.2 hmore
          have hsize : after.length < n := by
            rw [← hlength]
            simp only [List.length_cons,List.append_eq,List.length_append]
            omega
          obtain ⟨hmore,ht⟩ := hshorter hsize hrest hvalid
          have hall := Chars.cons (.raw hunescaped) hmore
          rw [hencode] at hall
          exact ⟨hall,ht⟩
      · rw [isValid_ascii_cons (by decide),isValid_ascii_cons (shortEscapes_ascii _ hletter).1] at hs
        obtain ⟨hmore,ht⟩ := hshorter (by rw [← hlength]; simp) hmore hs
        exact ⟨.cons (.short hletter) hmore,ht⟩
      · rw [isValid_ascii_cons (by decide),isValid_ascii_cons (by decide),isValid_ascii_append hquad.ascii] at hs
        simp only [List.length_cons,List.length_append] at hlength
        cases hcompleted with
        | unit v =>
          obtain ⟨hmore,ht⟩ := hshorter (by omega) hmore hs
          exact ⟨.cons (.unit v hquad) hmore,ht⟩
        | pair v hx hy hv hlow =>
          rw [isValid_ascii_cons (by decide),isValid_ascii_cons (by decide),isValid_ascii_append hlow.ascii] at hs
          simp only [List.length_cons,List.length_append] at hlength
          obtain ⟨hmore,ht⟩ := hshorter (by omega) hmore hs
          exact ⟨.cons (.pair v hx hy hv hquad hlow) hmore,ht⟩

theorem Chars.valid {s text t : Bytes} (h : Chars Unescaped s text t) : isValid text = true := by
  rw [isValid_iff]
  induction h with
  | close => exact ⟨[],rfl⟩
  | cons hitem _ ih =>
    obtain ⟨vs,rfl⟩ := ih
    cases hitem with
    | raw hpiece =>
      obtain ⟨v,-,-,-,rfl⟩ := hpiece
      exact ⟨v :: vs,rfl⟩
    | @short letter b _ hletter =>
      have hlt : b.toNat < 0x80 := (shortEscapes_ascii _ hletter).2
      have hscalar : isScalarValue b.toNat = true := by
        simp only [isScalarValue,Bool.and_eq_true,Bool.or_eq_true,decide_eq_true_eq]
        omega
      refine ⟨⟨b.toNat,hscalar⟩ :: vs,?_⟩
      rw [encodeAll_cons,encode_of_ascii hlt,UInt8.ofNat_toNat]
    | unit v => exact ⟨v :: vs,rfl⟩
    | pair v => exact ⟨v :: vs,rfl⟩

end SpareNode.Json
