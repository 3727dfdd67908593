import SpareNode.Filesystem.DirectoryListing
import SpareNode.Foundation.Utf8Encoding

/-! # Names of requests

The names that a request stands for below a root, and how they change when the encoded name
of an entry is joined to the request. One pass of decoding takes the encoded name back to the
name, but backslashes have become slashes by then.
-/
namespace SpareNode.Filesystem
open LexicalPath FileTree

variable {root : SharedRoot} {request parent decoded text text' a b a' b' : Bytes} {n : Name}
variable {cs : List Name}

theorem PercentDecodes.append (ha : PercentDecodes a a') (hb : PercentDecodes b b') :
    PercentDecodes (a ++ b) (a' ++ b') := by
  induction ha with
  | nil => exact hb
  | raw hbyte _ ih => exact .raw hbyte ih
  | escape hhigh hlow _ ih => exact .escape hhigh hlow ih

theorem PercentDecodes.unique (h : PercentDecodes request a) (h' : PercentDecodes request b) : a = b :=
  Except.ok.inj ((percentDecode_complete h).symm.trans (percentDecode_complete h'))

/-- A last byte that belongs to no escape decodes to itself. -/
theorem PercentDecodes.last {c : Byte} (h : PercentDecodes (a ++ [c]) decoded)
    (hc : digitValue c = none) : ∃ d, decoded = d ++ [c] := by
  generalize hrequest : a ++ [c] = request at h
  induction h generalizing a with
  | nil => simp at hrequest
  | @raw x rest d hx hd ih =>
    cases a with
    | nil =>
      obtain ⟨rfl,rfl⟩ := List.cons.inj hrequest
      cases hd
      exact ⟨[],rfl⟩
    | cons y a =>
      obtain ⟨rfl,hrest⟩ := List.cons.inj hrequest
      obtain ⟨d',rfl⟩ := ih hrest
      exact ⟨y :: d',rfl⟩
  | @escape high low i j rest d hhigh hlow hd ih =>
    match a,hrequest with
    | [],hrequest => simp at hrequest
    | [_],hrequest => simp at hrequest
    | [_,_],hrequest =>
      simp only [List.cons_append,List.nil_append,List.cons.injEq] at hrequest
      rw [← hrequest.2.2.1,hc] at hlow
      cases hlow
    | _ :: _ :: _ :: a,hrequest =>
      simp only [List.cons_append,List.cons.injEq] at hrequest
      obtain ⟨d',rfl⟩ := ih hrequest.2.2.2
      exact ⟨_ :: d',rfl⟩

theorem hexadecimal_digits (byte : Byte) :
    ∃ high low, digitValue (hexadecimal (byte.toNat >>> 4)) = some high ∧
      digitValue (hexadecimal (byte.toNat &&& 0x0F)) = some low ∧
      UInt8.ofNat (16 * high + low) = byte := by
  refine ⟨byte.toNat / 16,byte.toNat % 16,?_⟩
  exact forall_byte (P := fun byte => digitValue (hexadecimal (byte.toNat >>> 4)) = some (byte.toNat / 16) ∧
    digitValue (hexadecimal (byte.toNat &&& 0x0F)) = some (byte.toNat % 16) ∧
    UInt8.ofNat (16 * (byte.toNat / 16) + byte.toNat % 16) = byte) (by decide +kernel) byte

theorem encodePathComponent_decodes (component : Bytes) :
    PercentDecodes (encodePathComponent component) component := by
  induction component with
  | nil => exact .nil
  | cons byte component ih =>
    rw [encodePathComponent,List.flatMap_cons]
    split
    · rename_i hunreserved
      refine .raw ?_ ih
      intro heq
      rw [heq] at hunreserved
      revert hunreserved
      decide +kernel
    · obtain ⟨high,low,hhigh,hlow,hbyte⟩ := hexadecimal_digits byte
      have hescape := PercentDecodes.escape hhigh hlow ih
      rw [hbyte] at hescape
      exact hescape

theorem replaceBackslashes_append (a b : Bytes) :
    replaceBackslashes (a ++ b) = replaceBackslashes a ++ replaceBackslashes b := List.map_append

theorem replaceBackslashes_plain (h : char '\\' ∉ a) : replaceBackslashes a = a := by
  rw [replaceBackslashes,List.map_congr_left (g := id) (fun b hb => ?_),List.map_id]
  have hne : b ≠ char '\\' := fun heq => h (heq ▸ hb)
  simp [hne]

theorem not_mem_replaceBackslashes : char '\\' ∉ replaceBackslashes a := by
  intro h
  obtain ⟨b,-,heq⟩ := List.mem_map.mp h
  split at heq
  · revert heq
    decide +kernel
  · rename_i hb
    exact hb heq

theorem decodePathRequest_plain (h : decodePathRequest request = .ok text) : char '\\' ∉ text := by
  obtain ⟨decoded,-,-,rfl⟩ := decodePathRequest_eq_ok_iff.mp h
  exact not_mem_replaceBackslashes

/-- A slash begins no escape and stands in none, so a backslash hides none. -/
theorem hasEscape_replaceBackslashes (h : HasEscape (replaceBackslashes a)) : HasEscape a := by
  have hsame {x b : Byte} (hx : (if x = char '\\' then char '/' else x) = b) (hb : b ≠ char '/') : x = b := by
    split at hx
    · exact absurd hx.symm hb
    · exact hx
  have hslash : digitValue (char '/') = none := by decide
  have hdigit {b : Byte} (hb : (digitValue b).isSome) : b ≠ char '/' := by
    rintro rfl
    rw [hslash] at hb
    cases hb
  obtain ⟨front,high,low,back,hsplit,hhigh,hlow⟩ := h
  obtain ⟨front,rest,rfl,-,hrest⟩ := List.map_eq_append_iff.mp hsplit
  obtain ⟨percent,rest,rfl,hpercent,hrest⟩ := List.map_eq_cons_iff.mp hrest
  obtain ⟨x,rest,rfl,hx,hrest⟩ := List.map_eq_cons_iff.mp hrest
  obtain ⟨y,rest,rfl,hy,-⟩ := List.map_eq_cons_iff.mp hrest
  rw [hsame hpercent (by decide),hsame hx (hdigit hhigh),hsame hy (hdigit hlow)]
  exact ⟨front,high,low,rest,rfl,hhigh,hlow⟩

/-- A text without escapes decodes to itself if it decodes at all. -/
theorem PercentDecodes.of_plain (h : PercentDecodes a b) (hplain : ¬HasEscape a) : b = a := by
  induction h with
  | nil => rfl
  | @raw x rest d _ _ ih =>
    rw [ih]
    rintro ⟨front,high,low,back,rfl,hdigits⟩
    exact hplain ⟨x :: front,high,low,back,rfl,hdigits⟩
  | @escape high low i j rest d hhigh hlow _ _ =>
    exact absurd ⟨[],high,low,rest,rfl,by rw [hhigh]; rfl,by rw [hlow]; rfl⟩ hplain

/-- One pass of decoding leaves nothing for a second one, and takes an encoded component back unless the
component itself looks encoded. -/
theorem path_request_laws :
    (∀ request text, decodePathRequest request = .ok text →
      char '\\' ∉ text ∧ ¬HasEscape text ∧
      (∃ decoded, PercentDecodes request decoded ∧ text = replaceBackslashes decoded) ∧
      (decodePathRequest text = .ok text ∨ ∃ e, decodePathRequest text = .error e)) ∧
    ∀ s, ((∃ e, decodePathRequest (encodePathComponent s) = .error e) ↔ HasEscape s) ∧
      (¬HasEscape s → decodePathRequest (encodePathComponent s) = .ok (replaceBackslashes s)) ∧
      (decodePathRequest (encodePathComponent s) = .ok s ↔ char '\\' ∉ s ∧ ¬HasEscape s) := by
  constructor
  · intro request text h
    have hplain := decodePathRequest_plain h
    obtain ⟨decoded,hdecoded,hescape,rfl⟩ := decodePathRequest_eq_ok_iff.mp h
    have hescape' : ¬HasEscape (replaceBackslashes decoded) := fun h => hescape (hasEscape_replaceBackslashes h)
    refine ⟨hplain,hescape',⟨decoded,hdecoded,rfl⟩,?_⟩
    cases hagain : decodePathRequest (replaceBackslashes decoded) with
    | error e => exact Or.inr ⟨e,rfl⟩
    | ok text =>
      obtain ⟨twice,htwice,-,rfl⟩ := decodePathRequest_eq_ok_iff.mp hagain
      rw [htwice.of_plain hescape',replaceBackslashes_plain hplain]
      exact Or.inl rfl
  · intro s
    have hdecodes := encodePathComponent_decodes s
    have hok (h : ¬HasEscape s) : decodePathRequest (encodePathComponent s) = .ok (replaceBackslashes s) :=
      decodePathRequest_eq_ok_iff.mpr ⟨s,hdecodes,h,rfl⟩
    have hrefused (text : Bytes) (h : decodePathRequest (encodePathComponent s) = .ok text) : ¬HasEscape s := by
      obtain ⟨decoded,hdecoded,hescape,-⟩ := decodePathRequest_eq_ok_iff.mp h
      rwa [hdecodes.unique hdecoded]
    refine ⟨⟨?_,?_⟩,hok,⟨?_,?_⟩⟩
    · rintro ⟨e,he⟩
      by_contra hescape
      rw [hok hescape] at he
      cases he
    · intro hescape
      cases hresult : decodePathRequest (encodePathComponent s) with
      | error e => exact ⟨e,rfl⟩
      | ok text => exact absurd hescape (hrefused text hresult)
    · intro h
      exact ⟨decodePathRequest_plain h,hrefused s h⟩
    · rintro ⟨hplain,hescape⟩
      rw [hok hescape,replaceBackslashes_plain hplain]

/-- Joined to a request, an encoded name stands behind a slash in the text, unless it is the whole text. -/
theorem childRequest_text (h : decodePathRequest parent = .ok text)
    (hchild : decodePathRequest (childRequest parent (encodePathComponent n)) = .ok text') :
    text' = text ++ [char '/'] ++ replaceBackslashes n ∨ (text = [] ∧ text' = replaceBackslashes n) ∨
      ∃ front, text = front ++ [char '/'] ∧ text' = front ++ [char '/'] ++ replaceBackslashes n := by
  obtain ⟨decoded,hdecoded,-,rfl⟩ := decodePathRequest_eq_ok_iff.mp h
  obtain ⟨decoded',hdecoded',-,rfl⟩ := decodePathRequest_eq_ok_iff.mp hchild
  have hname := encodePathComponent_decodes n
  have hsep : replaceBackslashes [char '/'] = [char '/'] := by decide +kernel
  unfold childRequest at hdecoded'
  split at hdecoded'
  · have hslashed : PercentDecodes [char '/'] [char '/'] := .raw (by decide +kernel) .nil
    obtain rfl := hdecoded'.unique ((hdecoded.append hslashed).append hname)
    rw [replaceBackslashes_append,replaceBackslashes_append,hsep]
    exact .inl rfl
  · rename_i hend
    obtain rfl := hdecoded'.unique (hdecoded.append hname)
    cases parent using List.reverseRecOn with
    | nil =>
      cases hdecoded
      exact .inr (.inl ⟨rfl,rfl⟩)
    | append_singleton parent c =>
      -- the request ends in a slash or a backslash, which is a slash in its text
      have hc : c = char '/' ∨ c = char '\\' := by
        rw [List.getLast?_concat] at hend
        by_contra hne
        rw [not_or] at hne
        exact hend ⟨by simp,by simpa using hne.1,by simpa using hne.2⟩
      have hlast : digitValue c = none ∧ replaceBackslashes [c] = [char '/'] := by
        rcases hc with rfl | rfl <;> exact ⟨by decide +kernel,by decide +kernel⟩
      obtain ⟨d,rfl⟩ := hdecoded.last hlast.1
      refine .inr (.inr ⟨replaceBackslashes d,?_,?_⟩)
      · rw [replaceBackslashes_append,hlast.2]
      · rw [replaceBackslashes_append,replaceBackslashes_append,hlast.2]

/-- Joined to a request, an encoded name adds the names of its text with slashes. -/
theorem childRequest_names (h : decodePathRequest parent = .ok text)
    (hchild : decodePathRequest (childRequest parent (encodePathComponent n)) = .ok text') :
    (Path.ofText text').names = (Path.ofText text).names ++ (Path.ofText (replaceBackslashes n)).names := by
  have hslash : ∀ x y : Bytes, (Path.ofText (x ++ [char '/'] ++ y)).names =
      (Path.ofText x).names ++ (Path.ofText y).names := by
    intro x y
    rw [List.append_assoc]
    exact Path.ofText_names_append x y
  rcases childRequest_text h hchild with rfl | ⟨rfl,rfl⟩ | ⟨front,rfl,rfl⟩
  · exact hslash _ _
  · rfl
  · have hnil := hslash front []
    rw [List.append_nil] at hnil
    rw [hslash,hnil]
    simp [Path.ofText_names,split]

/-- A text is valid UTF-8 if it is with slashes for its backslashes. -/
theorem replaceBackslashes_valid (h : Utf8.isValid (replaceBackslashes a) = true) : Utf8.isValid a = true := by
  obtain ⟨vs,hvs⟩ := Utf8.isValid_iff.mp h
  clear h
  induction vs generalizing a with
  | nil =>
    obtain rfl := List.map_eq_nil_iff.mp hvs
    exact Utf8.isValid_nil
  | cons v vs ih =>
    rw [Utf8.encodeAll_cons] at hvs
    obtain ⟨a,b,rfl,hv,hrest⟩ := List.map_eq_append_iff.mp hvs
    have hb := ih hrest
    by_cases hascii : v.val < 0x80
    · rw [Utf8.encode_of_ascii hascii] at hv
      obtain ⟨c,rfl,hc⟩ := List.map_eq_singleton_iff.mp hv
      have hbyte : c < 0x80 := by
        split at hc
        · rename_i hbackslash
          rw [hbackslash]
          decide
        · rw [hc,UInt8.lt_iff_toNat_lt,UInt8.toNat_ofNat_of_lt' (hascii.trans (by decide))]
          exact hascii
      rw [List.singleton_append,Utf8.isValid_ascii_cons hbyte]
      exact hb
    · -- a slash is no byte of a longer scalar
      have hplain : char '\\' ∉ a := by
        intro hbackslash
        have hmem : char '/' ∈ Utf8.encode v := by
          rw [← hv]
          exact List.mem_map.mpr ⟨_,hbackslash,if_pos rfl⟩
        exact absurd (Utf8.encode_high (not_lt.mp hascii) hmem) (by decide)
      rw [← replaceBackslashes_plain hplain,show replaceBackslashes a = Utf8.encode v from hv]
      obtain ⟨ws,rfl⟩ := Utf8.isValid_iff.mp hb
      exact Utf8.isValid_iff.mpr ⟨v :: ws,rfl⟩

/-- A name is valid UTF-8 if the request for it is. -/
theorem childRequest_valid (h : decodePathRequest parent = .ok text)
    (hchild : decodePathRequest (childRequest parent (encodePathComponent n)) = .ok text')
    (hvalid : Utf8.isValid text' = true) : Utf8.isValid n = true := by
  have hbehind (front : Bytes) (heq : text' = front ++ [char '/'] ++ replaceBackslashes n) :
      Utf8.isValid n = true := by
    rw [heq,List.append_assoc] at hvalid
    exact replaceBackslashes_valid (Utf8.isValid_behind (b := char '/') (by decide) hvalid)
  rcases childRequest_text h hchild with heq | ⟨-,heq⟩ | ⟨front,-,heq⟩
  · exact hbehind text heq
  · rw [heq] at hvalid
    exact replaceBackslashes_valid hvalid
  · exact hbehind front heq

/-- The names of a request below a root are those of its text, pushed onto those of the root. -/
theorem normalizedCandidate_names (root : SharedRoot) (h : (Path.ofText text).rooted = false) :
    (normalizedCandidate root text).names =
      ((Path.ofText text).names.foldl (Path.push true) root.names.reverse).reverse := by
  have hnormal : (Path.ofText text).lexicallyNormal.rooted = false := by
    unfold Path.lexicallyNormal
    split <;> exact h
  have hpush : (Path.ofText text).lexicallyNormal.names.foldl (Path.push true) root.names.reverse =
      (Path.ofText text).names.foldl (Path.push true) root.names.reverse := by
    by_cases hempty : (Path.ofText text).isEmpty
    · rw [Path.lexicallyNormal,if_pos hempty]
    · exact Path.foldl_push_normal h (by simpa using hempty)
  have hroot : root.path.rooted = true := by
    rw [root.absolute]
    exact (Path.absolute_spec root.proper).1
  rw [← hpush]
  unfold normalizedCandidate
  dsimp only
  split
  · rename_i hdot
    have hkept : (Path.ofText text).lexicallyNormal.names.foldl (Path.push true) root.names.reverse =
        root.names.reverse := by
      rcases Bool.or_eq_true_iff.mp hdot with hempty | hdot
      · simp only [Path.isEmpty,Bool.and_eq_true,List.isEmpty_iff] at hempty
        simp [Path.names,hempty.1.2,hempty.2]
      · rw [of_decide_eq_true hdot]
        rfl
    rw [hkept,List.reverse_reverse]
    rfl
  · exact Path.append_normal_names hroot root.proper hnormal

/-- What a request adds to the names of the root are names of its text. -/
theorem normalizedCandidate_added (h : (Path.ofText text).rooted = false)
    (hnames : (normalizedCandidate root text).names = root.names ++ cs) :
    ∀ c ∈ cs, c ∈ (Path.ofText text).names := by
  obtain ⟨new,kept,heq,hkept,hnew⟩ :=
    Path.foldl_push_suffix (Path.ofText text).names root.names.reverse
  rw [normalizedCandidate_names root h,heq,List.reverse_append] at hnames
  have hkept : kept.reverse <+: root.names := by
    have := List.reverse_prefix.mpr hkept
    rwa [List.reverse_reverse] at this
  obtain ⟨rest,hrest⟩ := hkept
  rw [← hrest,List.append_assoc,List.append_cancel_left_eq] at hnames
  intro c hc
  refine hnew c (List.mem_reverse.mp ?_)
  rw [hnames]
  exact List.mem_append_right _ hc

/-- The names of a request never hold a backslash of their own. -/
theorem normalizedCandidate_plain (h : decodePathRequest request = .ok text)
    (hrooted : (Path.ofText text).rooted = false)
    (hnames : (normalizedCandidate root text).names = root.names ++ cs) :
    ∀ c ∈ cs, char '\\' ∉ c := by
  intro c hc hbackslash
  have hmem := normalizedCandidate_added hrooted hnames c hc
  rw [Path.ofText_names] at hmem
  exact decodePathRequest_plain h (mem_of_mem_split (List.mem_filter.mp hmem).1 hbackslash)

theorem PlainRequest.relative (h : PlainRequest request text) : (Path.ofText text).rooted = false :=
  decide_eq_false h.unrooted

/-- Joined to a request, a name without backslashes follows the names of the request. -/
theorem child_candidate_names (root : SharedRoot) (hn : ProperName n) (hplain : char '\\' ∉ n)
    (h : decodePathRequest parent = .ok text) (hrelative : (Path.ofText text).rooted = false)
    (hchild : decodePathRequest (childRequest parent (encodePathComponent n)) = .ok text')
    (hrelative' : (Path.ofText text').rooted = false) :
    (normalizedCandidate root text').names = (normalizedCandidate root text).names ++ [n] := by
  have hnames := childRequest_names h hchild
  rw [replaceBackslashes_plain hplain,Path.ofText_names_plain hn.separator hn.nonempty] at hnames
  rw [normalizedCandidate_names root hrelative,normalizedCandidate_names root hrelative',hnames,
    List.foldl_append,List.foldl_cons,List.foldl_nil,Path.push_proper hn,List.reverse_cons]

end SpareNode.Filesystem
