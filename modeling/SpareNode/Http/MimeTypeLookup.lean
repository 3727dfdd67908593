import SpareNode.Http.MimeTypeRegistry

/-! # What a registry serves

The type of a path depends on the extension of its last component alone, in any case of its
letters. Both searches by halving find what is there, and no type that is served is active.
-/
namespace SpareNode.Http

structure IsMediaType (value : Bytes) : Prop where
  parts : ∃ type subtype, value = type ++ char '/' :: subtype ∧ IsToken type ∧ IsToken subtype
  size : value.length ≤ maximumMediaTypeBytes

/-- A name of letters, digits and three marks, whatever its case. -/
structure IsExtensionName (name : Bytes) : Prop where
  nonempty : name ≠ []
  size : name.length ≤ maximumExtensionBytes
  characters : ∀ byte ∈ name, isExtensionCharacter byte = true

theorem slash_not_token : isHttpTokenCharacter (char '/') = false := by decide

theorem isValidMediaType_iff (value : Bytes) : isValidMediaType value = true ↔ IsMediaType value := by
  unfold isValidMediaType
  constructor
  · intro h
    split at h
    · cases h
    · rename_i hsize
      rw [not_or,Nat.not_lt] at hsize
      split at h
      · cases h
      · rename_i separator hfind
        split at h
        · cases h
        · rename_i hcut
          rw [not_or,not_or] at hcut
          obtain ⟨hfirst,hlast,honce⟩ := hcut
          obtain ⟨type,subtype,rfl,htype,rfl⟩ := find_eq_some_iff.mp hfind
          have hsecond : char '/' ∉ subtype := by
            intro hmem
            apply honce
            rw [findFrom,drop_cons_append,Option.isSome_map,Option.isSome_iff_ne_none]
            exact fun hnone => find_eq_none_iff.mp hnone hmem
          rw [List.all_eq_true] at h
          have htoken {byte : Byte} (hmem : byte ∈ type ++ char '/' :: subtype) (hne : byte ≠ char '/') :
              isHttpTokenCharacter byte = true := by
            simpa [hne] using h byte hmem
          refine ⟨⟨type,subtype,rfl,⟨?_,?_⟩,⟨?_,?_⟩⟩,hsize.2⟩
          · rintro rfl
            exact hfirst rfl
          · exact List.all_eq_true.mpr fun byte hbyte =>
              htoken (List.mem_append_left _ hbyte) fun heq => htype (heq ▸ hbyte)
          · rintro rfl
            exact hlast (by simp)
          · exact List.all_eq_true.mpr fun byte hbyte =>
              htoken (List.mem_append_right _ (List.mem_cons_of_mem _ hbyte)) fun heq => hsecond (heq ▸ hbyte)
  · rintro ⟨⟨type,subtype,rfl,⟨htype,htypeAll⟩,⟨hsubtype,hsubtypeAll⟩⟩,hsize⟩
    have hfirst : char '/' ∉ type := not_mem_of_all htypeAll slash_not_token
    have hsecond : char '/' ∉ subtype := not_mem_of_all hsubtypeAll slash_not_token
    have hnone : find (char '/') subtype = none := find_eq_none_iff.mpr hsecond
    rw [if_neg (by rw [not_or,Nat.not_lt]; exact ⟨by simp,hsize⟩),find_append subtype hfirst]
    dsimp only
    rw [if_neg]
    · rw [List.all_append,List.all_cons,Bool.and_eq_true,Bool.and_eq_true]
      refine ⟨?_,by simp,?_⟩
      · exact List.all_eq_true.mpr fun byte hbyte => by simp [List.all_eq_true.mp htypeAll byte hbyte]
      · exact List.all_eq_true.mpr fun byte hbyte => by simp [List.all_eq_true.mp hsubtypeAll byte hbyte]
    · rw [not_or,not_or,findFrom,drop_cons_append,hnone]
      refine ⟨?_,?_,by simp⟩
      · exact fun hzero => htype (List.length_eq_zero_iff.mp hzero)
      · intro hend
        apply hsubtype
        rw [List.length_append,List.length_cons] at hend
        exact List.length_eq_zero_iff.mp (by omega)

theorem normalizeExtension_iff {extension normalized : Bytes} :
    normalizeExtension extension = some normalized ↔
      IsExtensionName (withoutDot extension) ∧ normalized = char '.' :: (withoutDot extension).map asciiLower := by
  unfold normalizeExtension
  dsimp only
  constructor
  · intro h
    split at h
    · cases h
    · rename_i hname
      rw [not_or,not_or,Nat.not_lt,Bool.not_eq_false,List.all_eq_true] at hname
      exact ⟨⟨hname.1,hname.2.1,hname.2.2⟩,(Option.some.inj h).symm⟩
  · rintro ⟨⟨hnonempty,hsize,hcharacters⟩,rfl⟩
    rw [if_neg]
    rw [not_or,not_or,Nat.not_lt,Bool.not_eq_false,List.all_eq_true]
    exact ⟨hnonempty,hsize,hcharacters⟩

theorem normalizeExtension_none {extension : Bytes} :
    normalizeExtension extension = none ↔ ¬IsExtensionName (withoutDot extension) := by
  rw [← not_iff_not,not_not,← ne_eq,Option.ne_none_iff_exists']
  constructor
  · rintro ⟨normalized,h⟩
    exact (normalizeExtension_iff.mp h).1
  · exact fun h => ⟨_,normalizeExtension_iff.mpr ⟨h,rfl⟩⟩

theorem below_partitioned {α : Type*} {key : α → Bytes} {xs : List α} (h : xs.Pairwise (fun a b => key a < key b))
    (extension : Bytes) : SortedSearch.Partitioned (fun x => below extension (key x)) xs := by
  apply h.imp
  intro a b hab hbelow
  exact decide_eq_true (List.lt_trans hab (of_decide_eq_true hbelow))

/-- What the search of a sorted list finds under a key is the element with the key, if there is one. -/
theorem search_iff {α : Type*} {key : α → Bytes} {xs : List α} (h : xs.Pairwise (fun a b => key a < key b))
    (extension : Bytes) (x : α) :
    (xs[SortedSearch.partitionPoint (fun x => below extension (key x)) xs]? = some x ∧ key x = extension) ↔
      x ∈ xs ∧ key x = extension := by
  rw [SortedSearch.getElem?_partitionPoint (below_partitioned h extension)]
  apply and_congr_left
  rintro rfl
  constructor
  · exact List.mem_of_find?_eq_some
  · exact SortedSearch.find?_not_lt (fun k => List.lt_irrefl k) h

theorem activeExtensions_increasing : activeExtensions.Pairwise (fun a b => a < b) := by decide

/-- The binary search of the active extensions finds each of them and nothing else. -/
theorem isActiveExtension_iff (extension : Bytes) :
    isActiveExtension extension = true ↔ extension ∈ activeExtensions := by
  have hsorted : activeExtensions.Pairwise (fun a b => id a < id b) := activeExtensions_increasing
  have hpoint := SortedSearch.getElem?_partitionPoint (below_partitioned hsorted extension)
  unfold isActiveExtension
  constructor
  · intro h
    split at h
    · cases h
    · rename_i found hfound
      rw [Bool.not_eq_true',decide_eq_false_iff_not] at h
      have hfirst := hfound.symm.trans hpoint
      have hnot := List.find?_some hfirst.symm
      rw [Bool.not_eq_true',below,decide_eq_false_iff_not] at hnot
      obtain rfl : extension = found := List.le_antisymm (List.not_lt.mp hnot) (List.not_lt.mp h)
      exact List.mem_of_find?_eq_some hfirst.symm
  · intro h
    have hfound := ((search_iff hsorted extension extension).mpr ⟨h,rfl⟩).1
    change activeExtensions[SortedSearch.partitionPoint (below extension) activeExtensions]? = _ at hfound
    rw [hfound]
    simp [List.lt_irrefl]

theorem findLastOf_eq_none_iff {characters text : Bytes} :
    MimeTypeRegistry.findLastOf characters text = none ↔ ∀ byte ∈ text, byte ∉ characters := by
  induction text with
  | nil => exact ⟨fun _ => nofun,fun _ => rfl⟩
  | cons byte rest ih =>
    rw [MimeTypeRegistry.findLastOf,List.forall_mem_cons,← ih]
    split
    · rename_i index hindex
      simp [hindex]
    · rename_i hnone
      simp [hnone]

/-- The last occurrence cuts the text where no character occurs any more. -/
theorem findLastOf_eq_some_iff {characters text : Bytes} {index : ℕ} :
    MimeTypeRegistry.findLastOf characters text = some index ↔ ∃ front byte back, text = front ++ byte :: back ∧
      byte ∈ characters ∧ (∀ other ∈ back, other ∉ characters) ∧ front.length = index := by
  induction text generalizing index with
  | nil => exact ⟨nofun,fun ⟨front,byte,back,h,_⟩ => absurd h (by simp)⟩
  | cons first rest ih =>
    rw [MimeTypeRegistry.findLastOf]
    split
    · rename_i later hlater
      obtain ⟨front,byte,back,rfl,hbyte,hback,hfront⟩ := ih.mp hlater
      constructor
      · intro h
        cases h
        exact ⟨first :: front,byte,back,rfl,hbyte,hback,by rw [List.length_cons,hfront]⟩
      · rintro ⟨front',byte',back',hsplit,hbyte',hback',rfl⟩
        cases front' with
        | nil =>
          obtain ⟨rfl,rfl⟩ := List.cons.inj hsplit
          exact absurd hbyte (hback' byte (by simp))
        | cons first' front' =>
          obtain ⟨rfl,htail⟩ := List.cons.inj hsplit
          have hsame := ih.mpr ⟨front',byte',back',htail,hbyte',hback',rfl⟩
          rw [hlater] at hsame
          rw [Option.some.inj hsame,List.length_cons]
    · rename_i hnone
      have hrest := findLastOf_eq_none_iff.mp hnone
      constructor
      · intro h
        split at h
        · rename_i hfirst
          cases h
          exact ⟨[],first,rest,rfl,hfirst,hrest,rfl⟩
        · cases h
      · rintro ⟨front,byte,back,hsplit,hbyte,hback,rfl⟩
        cases front with
        | nil =>
          obtain ⟨rfl,rfl⟩ := List.cons.inj hsplit
          rw [if_pos hbyte]
          rfl
        | cons first' front =>
          obtain ⟨rfl,rfl⟩ := List.cons.inj hsplit
          exact absurd hbyte (hrest byte (by simp))

theorem findLastOf_append (characters front back : Bytes) :
    MimeTypeRegistry.findLastOf characters (front ++ back) =
      match MimeTypeRegistry.findLastOf characters back with
      | some index => some (front.length + index)
      | none => MimeTypeRegistry.findLastOf characters front := by
  induction front with
  | nil =>
    rw [List.nil_append]
    split
    · rename_i index hindex
      rw [hindex,List.length_nil,Nat.zero_add]
    · rename_i hnone
      rw [hnone]
      rfl
  | cons byte front ih =>
    rw [List.cons_append,MimeTypeRegistry.findLastOf,ih]
    split
    · rename_i index hindex
      split at hindex
      · cases hindex
        rw [List.length_cons]
        congr 1
        omega
      · rw [MimeTypeRegistry.findLastOf,hindex]
    · rename_i hnone
      split at hnone
      · cases hnone
      · rw [MimeTypeRegistry.findLastOf,hnone]

/-- The last occurrence is behind a place exactly when there is one behind it. -/
theorem findLastOf_behind (characters front name : Bytes) (byte : Byte) :
    ((MimeTypeRegistry.findLastOf characters (front ++ byte :: name)).any (fun index => front.length < index)) = true ↔
      ∃ other ∈ name, other ∈ characters := by
  have hsplit : front ++ byte :: name = front ++ [byte] ++ name := by simp
  rw [hsplit,findLastOf_append]
  split
  · rename_i index hindex
    obtain ⟨before,other,after,rfl,hother,-,-⟩ := findLastOf_eq_some_iff.mp hindex
    refine iff_of_true ?_ ⟨other,by simp,hother⟩
    rw [Option.any_some,List.length_append,List.length_singleton]
    exact decide_eq_true (by omega)
  · rename_i hnone
    have hname := findLastOf_eq_none_iff.mp hnone
    refine iff_of_false ?_ fun ⟨other,hmem,hother⟩ => hname other hmem hother
    cases hlast : MimeTypeRegistry.findLastOf characters (front ++ [byte]) with
    | none => exact nofun
    | some index =>
      obtain ⟨before,other,after,hcut,-,-,rfl⟩ := findLastOf_eq_some_iff.mp hlast
      have hlength := congrArg List.length hcut
      simp only [List.length_append,List.length_cons,List.length_nil] at hlength
      rw [Option.any_some,decide_eq_true_eq]
      omega

/-- What stands behind the last dot of the last component of a path. -/
structure HasExtension (path name : Bytes) : Prop where
  nonempty : name ≠ []
  last : ∀ byte ∈ name, byte ≠ char '.' ∧ byte ≠ char '/' ∧ byte ≠ char '\\'
  suffix : ∃ front, path = front ++ char '.' :: name

def extensionKey (name : Bytes) : Bytes := char '.' :: name.map asciiLower

theorem dot_eq : ascii "." = [char '.'] := rfl

theorem slashes_eq : ascii "/\\" = [char '/',char '\\'] := rfl

theorem last_iff (name : Bytes) : (∀ byte ∈ name, byte ≠ char '.' ∧ byte ≠ char '/' ∧ byte ≠ char '\\') ↔
    (∀ byte ∈ name, byte ∉ ascii ".") ∧ ¬∃ byte ∈ name, byte ∈ ascii "/\\" := by
  simp only [dot_eq,slashes_eq,List.mem_cons,List.not_mem_nil,or_false,not_exists,not_and,not_or]
  exact forall₂_and

/-- The scans for the last dot and the last slash find the extension of the last component. -/
theorem hasExtension_iff {path name : Bytes} : HasExtension path name ↔
    ∃ dot, MimeTypeRegistry.findLastOf (ascii ".") path = some dot ∧
      ¬((MimeTypeRegistry.findLastOf (ascii "/\\") path).any (fun slash => dot < slash) ∨ dot + 1 = path.length) ∧
      path.drop dot = char '.' :: name := by
  constructor
  · rintro ⟨hnonempty,hlast,front,rfl⟩
    obtain ⟨hdots,hslashes⟩ := (last_iff name).mp hlast
    refine ⟨front.length,?_,?_,List.drop_left ..⟩
    · exact findLastOf_eq_some_iff.mpr ⟨front,char '.',name,rfl,List.mem_singleton.mpr rfl,hdots,rfl⟩
    · rw [not_or,findLastOf_behind]
      refine ⟨hslashes,?_⟩
      intro hend
      rw [List.length_append,List.length_cons] at hend
      exact hnonempty (List.length_eq_zero_iff.mp (by omega))
  · rintro ⟨dot,hdot,hcut,hdrop⟩
    obtain ⟨front,byte,back,rfl,-,hdots,rfl⟩ := findLastOf_eq_some_iff.mp hdot
    rw [List.drop_left] at hdrop
    obtain ⟨rfl,rfl⟩ := List.cons.inj hdrop
    rw [not_or,findLastOf_behind] at hcut
    refine ⟨?_,(last_iff back).mpr ⟨hdots,hcut.1⟩,front,rfl⟩
    rintro rfl
    exact hcut.2 (by simp)

section Served
variable {registry : MimeTypeRegistry} {path name : Bytes}

theorem activeExtensions_size : ∀ extension ∈ activeExtensions, extension.length ≤ maximumExtensionBytes + 1 := by decide

/-- An extension that a registry holds is no longer than one that it looks for. -/
theorem mapping_size {mapping : MimeTypeMapping} (hmem : mapping ∈ registry.mappings) :
    mapping.extension.length ≤ maximumExtensionBytes + 1 := by
  obtain ⟨source,hnormalizes⟩ := registry.sorted.normalized mapping hmem
  obtain ⟨hname,hkey⟩ := normalizeExtension_iff.mp hnormalizes.extension
  rw [hkey,List.length_cons,List.length_map]
  exact Nat.succ_le_succ hname.size

/-- The type of a path with an extension, once the extension is cut out. -/
theorem contentTypeForPath_eq (h : HasExtension path name) : registry.contentTypeForPath path =
    if maximumExtensionBytes + 1 < (extensionKey name).length then binaryFallback
    else if isActiveExtension (extensionKey name) then safeTextType
    else
      match registry.mappings[SortedSearch.partitionPoint
        (fun mapping => below (extensionKey name) mapping.extension) registry.mappings]? with
      | none => binaryFallback
      | some mapping =>
        if mapping.extension ≠ extensionKey name then binaryFallback
        else if isActiveMediaType mapping.mediaType then safeTextType
        else mapping.mediaType := by
  obtain ⟨dot,hdot,hcut,hdrop⟩ := hasExtension_iff.mp h
  have hkey : (path.drop dot).map asciiLower = extensionKey name := by
    rw [hdrop]
    rfl
  have hlength : path.length - dot = (extensionKey name).length := by
    rw [← hkey,List.length_map,List.length_drop]
  rw [← hlength,← hkey]
  unfold MimeTypeRegistry.contentTypeForPath
  rw [hdot]
  exact if_neg hcut

theorem contentType_active (h : HasExtension path name) (hactive : extensionKey name ∈ activeExtensions) :
    registry.contentTypeForPath path = safeTextType := by
  rw [contentTypeForPath_eq h,if_neg (Nat.not_lt.mpr (activeExtensions_size _ hactive)),
    if_pos ((isActiveExtension_iff _).mpr hactive)]

theorem contentType_mapped {mapping : MimeTypeMapping} (h : HasExtension path name)
    (hactive : extensionKey name ∉ activeExtensions) (hmem : mapping ∈ registry.mappings)
    (hkey : mapping.extension = extensionKey name) :
    registry.contentTypeForPath path =
      if isActiveMediaType mapping.mediaType then safeTextType else mapping.mediaType := by
  have hfound := ((search_iff registry.sorted.increasing (extensionKey name) mapping).mpr ⟨hmem,hkey⟩).1
  have hsize := mapping_size hmem
  rw [hkey] at hsize
  rw [contentTypeForPath_eq h,if_neg (Nat.not_lt.mpr hsize),
    if_neg (fun hyes => hactive ((isActiveExtension_iff _).mp hyes)),hfound]
  dsimp only
  rw [if_neg (not_not.mpr hkey)]

theorem contentType_unlisted (h : HasExtension path name) (hactive : extensionKey name ∉ activeExtensions)
    (hnone : ∀ mapping ∈ registry.mappings, mapping.extension ≠ extensionKey name) :
    registry.contentTypeForPath path = binaryFallback := by
  rw [contentTypeForPath_eq h]
  split
  · rfl
  · rw [if_neg (fun hyes => hactive ((isActiveExtension_iff _).mp hyes))]
    split
    · rfl
    · rename_i mapping hfound
      split
      · rfl
      · rename_i hkey
        rw [not_not] at hkey
        have hmem := ((search_iff registry.sorted.increasing (extensionKey name) mapping).mp ⟨hfound,hkey⟩).1
        exact absurd hkey (hnone mapping hmem)

theorem contentType_bare (h : ∀ name, ¬HasExtension path name) : registry.contentTypeForPath path = binaryFallback := by
  unfold MimeTypeRegistry.contentTypeForPath
  split
  · rfl
  · rename_i dot hdot
    split
    · rfl
    · rename_i hcut
      obtain ⟨front,byte,name,rfl,hbyte,-,rfl⟩ := findLastOf_eq_some_iff.mp hdot
      rw [dot_eq,List.mem_singleton] at hbyte
      subst hbyte
      exact absurd (hasExtension_iff.mpr ⟨_,hdot,hcut,List.drop_left ..⟩) (h name)

theorem safeTextType_inactive : isActiveMediaType safeTextType = false := by decide +kernel

theorem binaryFallback_inactive : isActiveMediaType binaryFallback = false := by decide +kernel

/-- No type that is served is one that a browser would run. -/
theorem contentType_inactive (registry : MimeTypeRegistry) (path : Bytes) :
    isActiveMediaType (registry.contentTypeForPath path) = false := by
  unfold MimeTypeRegistry.contentTypeForPath
  split
  · exact binaryFallback_inactive
  · split
    · exact binaryFallback_inactive
    · split
      · exact binaryFallback_inactive
      · dsimp only
        split
        · exact safeTextType_inactive
        · split
          · exact binaryFallback_inactive
          · split
            · exact binaryFallback_inactive
            · split
              · exact safeTextType_inactive
              · rename_i hinactive
                simpa using hinactive

end Served
end SpareNode.Http
