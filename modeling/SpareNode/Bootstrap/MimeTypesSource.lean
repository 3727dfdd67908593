import SpareNode.Bootstrap.MimeTypesLoader
import SpareNode.Http.MimeTypeLookup

/-! # What a MIME source says

The lines of a source and what they list, without a scanner; and that the loader serves every path
by them, or names a line that breaks the rule it reports.
-/
namespace SpareNode.Bootstrap
open Http

/-- The fields of a text between spaces and tabs. -/
def fields (text : Bytes) : List Bytes := (text.splitOnP isHorizontalSpace).filter (· ≠ [])

/-- The tokens of a line: its fields in front of a comment. -/
def lineTokens (line : Bytes) : List Bytes := fields (line.takeWhile (· ≠ char '#'))

theorem fields_append {space : Byte} (h : isHorizontalSpace space = true) (front back : Bytes) :
    fields (front ++ space :: back) = fields front ++ fields back := by
  rw [fields,List.splitOnP_append_cons front back h,List.filter_append]
  rfl

theorem fields_spaces {spaces : Bytes} (h : ∀ b ∈ spaces, isHorizontalSpace b = true) (text : Bytes) :
    fields (spaces ++ text) = fields text := by
  induction spaces with
  | nil => rfl
  | cons space spaces ih =>
    rw [List.forall_mem_cons] at h
    rw [List.cons_append,← ih h.2]
    exact fields_append h.1 [] _

theorem fields_token {token : Bytes} (hne : token ≠ []) (h : ∀ b ∈ token, isHorizontalSpace b = false) :
    fields token = [token] := by
  rw [fields,List.splitOnP_eq_singleton h]
  simp [hne]

theorem isTokenByte_iff {b : Byte} : isTokenByte b = true ↔ isHorizontalSpace b = false ∧ b ≠ char '#' := by
  simp [isTokenByte]

theorem space_not_comment {b : Byte} (h : isHorizontalSpace b = true) : b ≠ char '#' := by
  rintro rfl
  exact absurd h (by decide)

theorem lineTokens_append {front : Bytes} (h : ∀ b ∈ front, b ≠ char '#') (back : Bytes) :
    lineTokens (front ++ back) = fields (front ++ back.takeWhile (· ≠ char '#')) := by
  rw [lineTokens,List.takeWhile_append_of_pos fun b hb => by simpa using h b hb]

theorem lineTokens_dropWhile (line : Bytes) : lineTokens line = lineTokens (line.dropWhile isHorizontalSpace) := by
  have hspaces : ∀ b ∈ line.takeWhile isHorizontalSpace, isHorizontalSpace b = true :=
    fun b hb => List.mem_takeWhile_imp hb
  have hfront := lineTokens_append (fun b hb => space_not_comment (hspaces b hb)) (line.dropWhile isHorizontalSpace)
  rw [List.takeWhile_append_dropWhile,fields_spaces hspaces] at hfront
  exact hfront

/-- What the scanner takes for a token, and the line from there on. -/
theorem scanned_token {line rest : Bytes} {first : Byte} (hrest : line.dropWhile isHorizontalSpace = first :: rest)
    (hcomment : first ≠ char '#') :
    fields ((first :: rest).takeWhile isTokenByte) = [(first :: rest).takeWhile isTokenByte] ∧
      lineTokens line = fields ((first :: rest).takeWhile isTokenByte ++
        ((first :: rest).dropWhile isTokenByte).takeWhile (· ≠ char '#')) := by
  have hbytes : ∀ b ∈ (first :: rest).takeWhile isTokenByte, isHorizontalSpace b = false ∧ b ≠ char '#' :=
    fun b hb => isTokenByte_iff.mp (List.mem_takeWhile_imp hb)
  have hfirst := List.head?_dropWhile_not isHorizontalSpace line
  rw [hrest] at hfirst
  have htoken : isTokenByte first = true := isTokenByte_iff.mpr ⟨by simpa using hfirst,hcomment⟩
  refine ⟨fields_token ?_ fun b hb => (hbytes b hb).1,?_⟩
  · rw [List.takeWhile_cons_of_pos htoken]
    exact List.cons_ne_nil _ _
  · rw [lineTokens_dropWhile,hrest,← lineTokens_append fun b hb => (hbytes b hb).2,List.takeWhile_append_dropWhile]

theorem splitTokens_eq (line : Bytes) : splitTokens line = lineTokens line := by
  fun_induction splitTokens line with
  | case1 line hrest =>
    rw [lineTokens_dropWhile,hrest]
    rfl
  | case2 line rest hrest =>
    rw [lineTokens_dropWhile,hrest]
    rfl
  | case3 line first rest hrest hcomment token hnext =>
    obtain ⟨htoken,hline⟩ := scanned_token hrest hcomment
    rw [hline,hnext,List.takeWhile_nil,List.append_nil,htoken]
  | case4 line first rest hrest hcomment token after hnext =>
    obtain ⟨htoken,hline⟩ := scanned_token hrest hcomment
    have hcut : (char '#' :: after).takeWhile (· ≠ char '#') = [] := List.takeWhile_cons_of_neg (by simp)
    rw [hline,hnext,hcut,List.append_nil,htoken]
  | case5 line first rest hrest hcomment token next after hnext hhash ih =>
    obtain ⟨htoken,hline⟩ := scanned_token hrest hcomment
    have hstop := List.head?_dropWhile_not isTokenByte (first :: rest)
    rw [hnext] at hstop
    have hspace : isHorizontalSpace next = true := by simpa [isTokenByte,hhash] using hstop
    have huncommented : (next :: after).takeWhile (· ≠ char '#') = next :: after.takeWhile (· ≠ char '#') :=
      List.takeWhile_cons_of_pos (by simpa using hhash)
    have hmore : lineTokens (next :: after) = fields (after.takeWhile (· ≠ char '#')) := by
      rw [lineTokens,huncommented]
      exact fields_append hspace [] _
    rw [hline,hnext,huncommented,fields_append hspace,htoken,ih,hmore]
    rfl

def sourceLines (source : Bytes) : List Bytes := (source.splitOn lf).map withoutReturn

/-- One extension of a line, with the media type in front of it. -/
structure Listing where
  line : ℕ
  extension : Bytes
  mediaType : Bytes

namespace Listing

def mapping (listing : Listing) : MimeTypeMapping := ⟨listing.extension,listing.mediaType⟩

/-- The key of the extension, with or without its dot and whatever its case. -/
def key (listing : Listing) : Bytes := extensionKey (withoutDot listing.extension)

end Listing

def lineListings (line : ℕ) (text : Bytes) : List Listing :=
  match lineTokens text with
  | [] => []
  | mediaType :: extensions => extensions.map (⟨line,·,mediaType⟩)

/-- The listings of lines that are numbered from some number on. -/
def listingsFrom (line : ℕ) : List Bytes → List Listing
  | [] => []
  | text :: lines => lineListings line text ++ listingsFrom (line + 1) lines

def listings (source : Bytes) : List Listing := listingsFrom 1 (sourceLines source)

theorem listingsFrom_append (line : ℕ) (front back : List Bytes) :
    listingsFrom line (front ++ back) = listingsFrom line front ++ listingsFrom (line + front.length) back := by
  induction front generalizing line with
  | nil => rfl
  | cons text front ih =>
    rw [List.cons_append,listingsFrom,listingsFrom,ih,List.append_assoc,List.length_cons]
    congr 3
    omega

structure Readable (text : Bytes) : Prop where
  size : text.length ≤ maximumLineBytes
  paired : (lineTokens text).length ≠ 1

def collected (found : List Listing) : List MimeTypeMapping × List ℕ :=
  (found.map Listing.mapping,found.map Listing.line)

theorem appendExtensions_eq {line : ℕ} {mediaType : Bytes} {found : List Listing} (extensions : List Bytes)
    (hfound : found.length ≤ maximumEntries) :
    appendExtensions line mediaType (collected found).1 (collected found).2 extensions =
      if found.length + extensions.length ≤ maximumEntries then
        .ok (collected (found ++ extensions.map (⟨line,·,mediaType⟩)))
      else .error ⟨.tooManyEntries,line⟩ := by
  induction extensions generalizing found with
  | nil =>
    rw [List.length_nil,Nat.add_zero,if_pos hfound,List.map_nil,List.append_nil]
    rfl
  | cons extension extensions ih =>
    rw [appendExtensions]
    have hlength : (collected found).1.length = found.length := List.length_map ..
    rw [hlength,List.length_cons]
    split
    · rename_i hfull
      rw [if_neg (by omega)]
    · rename_i hroom
      have hone : (found ++ [⟨line,extension,mediaType⟩] : List Listing).length = found.length + 1 := by simp
      have hnext := @ih (found ++ [⟨line,extension,mediaType⟩]) (by omega)
      have hpushed : collected (found ++ [⟨line,extension,mediaType⟩]) =
          ((collected found).1 ++ [⟨extension,mediaType⟩],(collected found).2 ++ [line]) := by
        simp [collected,Listing.mapping]
      rw [hpushed,hone] at hnext
      dsimp only at hnext
      rw [hnext,List.map_cons,List.append_assoc,List.singleton_append,Nat.add_assoc,Nat.add_comm 1]

theorem appendLineMappings_eq {line : ℕ} {found : List Listing} (text : Bytes)
    (hfound : found.length ≤ maximumEntries) :
    appendLineMappings text line (collected found).1 (collected found).2 =
      if maximumLineBytes < text.length then .error ⟨.lineTooLong,line⟩
      else if (lineTokens text).length = 1 then .error ⟨.invalidLine,line⟩
      else if found.length + (lineListings line text).length ≤ maximumEntries then
        .ok (collected (found ++ lineListings line text))
      else .error ⟨.tooManyEntries,line⟩ := by
  unfold appendLineMappings
  rw [splitTokens_eq]
  split
  · rfl
  · split
    · rename_i hnone
      rw [hnone,lineListings,hnone,if_neg (by simp),if_pos (by simpa using hfound),List.append_nil]
    · rename_i token hsingle
      rw [hsingle]
      rfl
    · rename_i mediaType extensions hsingle htokens
      have hmany : (lineTokens text).length ≠ 1 := by
        rw [htokens,List.length_cons]
        intro hone
        exact hsingle (List.length_eq_zero_iff.mp (by omega))
      rw [if_neg hmany,lineListings,htokens,appendExtensions_eq extensions hfound,List.length_map]

/-- Why no more is read at a line, after what was found before it. -/
def Stops (found : List Listing) (line : ℕ) (text : Bytes) : MimeTypesLoadErrorCode → Prop
  | .lineTooLong => maximumLineBytes < text.length
  | .invalidLine => (lineTokens text).length = 1
  | .tooManyEntries => found.length ≤ maximumEntries ∧ maximumEntries < (found ++ lineListings line text).length
  | _ => False

theorem appendLineMappings_ok {line : ℕ} {found : List Listing} {text : Bytes} {pushed : List MimeTypeMapping × List ℕ}
    (hfound : found.length ≤ maximumEntries)
    (h : appendLineMappings text line (collected found).1 (collected found).2 = .ok pushed) :
    Readable text ∧ (found ++ lineListings line text).length ≤ maximumEntries ∧
      pushed = collected (found ++ lineListings line text) := by
  rw [appendLineMappings_eq text hfound] at h
  split at h
  · cases h
  · rename_i hsize
    split at h
    · cases h
    · rename_i hpaired
      split at h
      · rename_i hroom
        cases h
        exact ⟨⟨Nat.not_lt.mp hsize,hpaired⟩,by rwa [List.length_append],rfl⟩
      · cases h

theorem appendLineMappings_error {line : ℕ} {found : List Listing} {text : Bytes} {error : MimeTypesLoadError}
    (hfound : found.length ≤ maximumEntries)
    (h : appendLineMappings text line (collected found).1 (collected found).2 = .error error) :
    error.line = line ∧ Stops found line text error.code := by
  rw [appendLineMappings_eq text hfound] at h
  split at h
  · rename_i hsize
    cases h
    exact ⟨rfl,hsize⟩
  · split at h
    · rename_i hsingle
      cases h
      exact ⟨rfl,hsingle⟩
    · split at h
      · cases h
      · rename_i hfull
        cases h
        refine ⟨rfl,hfound,?_⟩
        rw [List.length_append]
        exact Nat.not_le.mp hfull

theorem sourceLines_last {rest : Bytes} (h : find lf rest = none) : sourceLines rest = [withoutReturn rest] := by
  rw [sourceLines,List.splitOn_eq_singleton (find_eq_none_iff.mp h)]
  rfl

theorem sourceLines_next {rest : Bytes} {lineEnd : ℕ} (h : find lf rest = some lineEnd) :
    sourceLines rest = withoutReturn (rest.take lineEnd) :: sourceLines (rest.drop (lineEnd + 1)) := by
  obtain ⟨text,after,rfl,htext,rfl⟩ := find_eq_some_iff.mp h
  rw [drop_cons_append,List.take_left,sourceLines,List.splitOn_append_cons_self_of_not_mem htext]
  rfl

/-- What the loop has read when it comes to the end. -/
theorem parseLines_ok {rest : Bytes} {line last : ℕ} {found : List Listing} {mappings : List MimeTypeMapping}
    {numbers : List ℕ} {pushed : List MimeTypeMapping} {pushedNumbers : List ℕ}
    (hcollected : (mappings,numbers) = collected found) (hfound : found.length ≤ maximumEntries)
    (h : parseLines rest line mappings numbers = .ok (pushed,pushedNumbers,last)) :
    (∀ text ∈ sourceLines rest, Readable text) ∧
      (found ++ listingsFrom line (sourceLines rest)).length ≤ maximumEntries ∧
      (pushed,pushedNumbers) = collected (found ++ listingsFrom line (sourceLines rest)) := by
  fun_induction parseLines rest line mappings numbers generalizing found with
  | case1 rest line mappings numbers hend failure hfailed => cases h
  | case2 rest line mappings numbers hend more moreNumbers hmore =>
    obtain ⟨rfl,rfl⟩ := Prod.mk.inj hcollected
    obtain ⟨hreadable,hroom,hpushed⟩ := appendLineMappings_ok hfound hmore
    cases h
    rw [sourceLines_last hend,List.forall_mem_singleton,listingsFrom,listingsFrom,List.append_nil]
    exact ⟨hreadable,hroom,hpushed⟩
  | case3 rest line mappings numbers lineEnd hend failure hfailed => cases h
  | case4 rest line mappings numbers lineEnd hend more moreNumbers hmore ih =>
    obtain ⟨rfl,rfl⟩ := Prod.mk.inj hcollected
    obtain ⟨hreadable,hroom,hpushed⟩ := appendLineMappings_ok hfound hmore
    obtain ⟨hlater,htotal,hall⟩ := ih hpushed hroom h
    rw [sourceLines_next hend,List.forall_mem_cons,listingsFrom,← List.append_assoc]
    exact ⟨⟨hreadable,hlater⟩,htotal,hall⟩

theorem parseLines_error {rest : Bytes} {line : ℕ} {found : List Listing} {mappings : List MimeTypeMapping}
    {numbers : List ℕ} {error : MimeTypesLoadError} (hcollected : (mappings,numbers) = collected found)
    (hfound : found.length ≤ maximumEntries) (h : parseLines rest line mappings numbers = .error error) :
    ∃ before text after, sourceLines rest = before ++ text :: after ∧ error.line = line + before.length ∧
      Stops (found ++ listingsFrom line before) error.line text error.code := by
  fun_induction parseLines rest line mappings numbers generalizing found with
  | case1 rest line mappings numbers hend failure hfailed =>
    obtain ⟨rfl,rfl⟩ := Prod.mk.inj hcollected
    cases h
    obtain ⟨hline,hstops⟩ := appendLineMappings_error hfound hfailed
    refine ⟨[],withoutReturn rest,[],sourceLines_last hend,hline,?_⟩
    rw [listingsFrom,List.append_nil,hline]
    exact hstops
  | case2 rest line mappings numbers hend more moreNumbers hmore => cases h
  | case3 rest line mappings numbers lineEnd hend failure hfailed =>
    obtain ⟨rfl,rfl⟩ := Prod.mk.inj hcollected
    cases h
    obtain ⟨hline,hstops⟩ := appendLineMappings_error hfound hfailed
    refine ⟨[],_,_,sourceLines_next hend,hline,?_⟩
    rw [listingsFrom,List.append_nil,hline]
    exact hstops
  | case4 rest line mappings numbers lineEnd hend more moreNumbers hmore ih =>
    obtain ⟨rfl,rfl⟩ := Prod.mk.inj hcollected
    obtain ⟨-,hroom,hpushed⟩ := appendLineMappings_ok hfound hmore
    obtain ⟨before,text,after,hlines,hline,hstops⟩ := ih hpushed hroom h
    refine ⟨withoutReturn (rest.take lineEnd) :: before,text,after,?_,?_,?_⟩
    · rw [sourceLines_next hend,hlines,List.cons_append]
    · rw [hline,List.length_cons]
      omega
    · rw [listingsFrom,← List.append_assoc]
      exact hstops

namespace Listing

def normalized (listing : Listing) : MimeTypeMapping := ⟨listing.key,listing.mediaType.map asciiLower⟩

structure Valid (listing : Listing) : Prop where
  extension : IsExtensionName (withoutDot listing.extension)
  mediaType : IsMediaType listing.mediaType

end Listing

theorem normalizes_eq {found : List Listing} {checked : List MimeTypeMapping}
    (h : List.Forall₂ Normalizes (found.map Listing.mapping) checked) :
    checked = found.map Listing.normalized ∧ ∀ listing ∈ found, listing.Valid := by
  induction found generalizing checked with
  | nil =>
    cases h
    exact ⟨rfl,nofun⟩
  | cons listing found ih =>
    cases h with
    | @cons _ normalized _ others hfirst hrest =>
      obtain ⟨rfl,hvalid⟩ := ih hrest
      obtain ⟨hname,hkey⟩ := normalizeExtension_iff.mp hfirst.extension
      refine ⟨?_,List.forall_mem_cons.mpr ⟨⟨hname,(isValidMediaType_iff _).mp hfirst.valid⟩,hvalid⟩⟩
      obtain ⟨extension,mediaType⟩ := normalized
      obtain rfl : mediaType = listing.mediaType.map asciiLower := hfirst.mediaType
      obtain rfl : extension = listing.key := hkey
      rfl

structure WellFormed (source : Bytes) : Prop where
  size : source.length ≤ maximumFileBytes
  readable : ∀ text ∈ sourceLines source, Readable text
  valid : ∀ listing ∈ listings source, listing.Valid
  distinct : ((listings source).map Listing.key).Nodup
  entries : (listings source).length ≤ maximumEntries

section Loaded
variable {source : Bytes}

theorem parseLines_listings {mappings : List MimeTypeMapping} {numbers : List ℕ} {last : ℕ}
    (h : parseLines source 1 [] [] = .ok (mappings,numbers,last)) :
    (∀ text ∈ sourceLines source, Readable text) ∧ (listings source).length ≤ maximumEntries ∧
      mappings = (listings source).map Listing.mapping ∧ numbers = (listings source).map Listing.line := by
  have hempty : (([],[]) : List MimeTypeMapping × List ℕ) = collected [] := rfl
  obtain ⟨hreadable,hroom,hpushed⟩ := parseLines_ok hempty (Nat.zero_le _) h
  obtain ⟨hmappings,hnumbers⟩ := Prod.mk.inj hpushed
  exact ⟨hreadable,hroom,hmappings,hnumbers⟩

/-- An accepted source is well formed, and the registry holds what it lists. -/
theorem parse_ok {registry : MimeTypeRegistry} (h : parse source = .ok registry) :
    WellFormed source ∧ registry.mappings = sortMappings ((listings source).map Listing.normalized) := by
  unfold parse at h
  split at h
  · cases h
  · rename_i hsize
    split at h
    · cases h
    · rename_i mappings numbers last hlines
      obtain ⟨hreadable,hroom,rfl,rfl⟩ := parseLines_listings hlines
      split at h
      · cases h
      · rename_i created hcreate
        cases h
        unfold MimeTypeRegistry.create at hcreate
        split at hcreate
        · cases hcreate
        · split at hcreate
          · cases hcreate
          · rename_i checked hchecked
            cases hcreate
            obtain ⟨hall,hdistinct,-⟩ := checkMappings_ok hchecked
            obtain ⟨rfl,hvalid⟩ := normalizes_eq hall
            rw [List.map_map] at hdistinct
            exact ⟨⟨Nat.not_lt.mp hsize,hreadable,hvalid,hdistinct,hroom⟩,rfl⟩

/-- A line of the source under its number, with the lines before it. -/
def LineAt (source : Bytes) (line : ℕ) (before : List Bytes) (text : Bytes) : Prop :=
  ∃ after, sourceLines source = before ++ text :: after ∧ line = before.length + 1

def Violates (source : Bytes) (line : ℕ) : MimeTypesLoadErrorCode → Prop
  | .lineTooLong => ∃ before text, LineAt source line before text ∧ maximumLineBytes < text.length
  | .invalidLine => ∃ before text, LineAt source line before text ∧ (lineTokens text).length = 1
  | .tooManyEntries => ∃ before text, LineAt source line before text ∧
      (listingsFrom 1 before).length ≤ maximumEntries ∧ maximumEntries < (listingsFrom 1 (before ++ [text])).length
  | .invalidExtension => ∃ listing ∈ listings source, listing.line = line ∧
      ¬IsExtensionName (withoutDot listing.extension)
  | .invalidMediaType => ∃ listing ∈ listings source, listing.line = line ∧ ¬IsMediaType listing.mediaType
  | .duplicateExtension => ∃ before listing after, listings source = before ++ listing :: after ∧
      listing.line = line ∧ ∃ other ∈ before, other.key = listing.key
  | _ => False

theorem violates_of_stops {error : MimeTypesLoadError} (h : parseLines source 1 [] [] = .error error) :
    Violates source error.line error.code := by
  have hempty : (([],[]) : List MimeTypeMapping × List ℕ) = collected [] := rfl
  obtain ⟨before,text,after,hlines,hline,hstops⟩ := parseLines_error hempty (Nat.zero_le _) h
  have hat : LineAt source error.line before text := ⟨after,hlines,by omega⟩
  obtain ⟨code,line⟩ := error
  cases code with
  | lineTooLong => exact ⟨before,text,hat,hstops⟩
  | invalidLine => exact ⟨before,text,hat,hstops⟩
  | tooManyEntries =>
    refine ⟨before,text,hat,hstops.1,?_⟩
    obtain rfl : line = 1 + before.length := hline
    rw [listingsFrom_append,listingsFrom,listingsFrom,List.append_nil]
    exact hstops.2
  | _ => exact hstops.elim

/-- The number next to a mapping leads from an error of the registry back to the source. -/
theorem violates_of_breaks {before : List Listing} {listing : Listing} {after : List Listing}
    {code : MimeTypeRegistryErrorCode} (hsplit : listings source = before ++ listing :: after)
    (h : Breaks [] (before.map Listing.mapping) listing.mapping code) :
    Violates source listing.line (loadErrorCode code) := by
  have hmem : listing ∈ listings source := hsplit ▸ List.mem_append_right _ List.mem_cons_self
  cases code with
  | invalidExtension => exact ⟨listing,hmem,rfl,normalizeExtension_none.mp h⟩
  | invalidMediaType =>
    refine ⟨listing,hmem,rfl,?_⟩
    rw [← isValidMediaType_iff]
    exact Bool.eq_false_iff.mp h
  | duplicateExtension =>
    obtain ⟨extension,hextension,hseen | ⟨mapping,hmapping,hsame⟩⟩ := h
    · exact absurd hseen List.not_mem_nil
    · obtain ⟨other,hother,rfl⟩ := List.mem_map.mp hmapping
      refine ⟨before,listing,after,hsplit,rfl,other,hother,?_⟩
      exact (normalizeExtension_iff.mp hsame).2.symm.trans (normalizeExtension_iff.mp hextension).2
  | tooManyEntries => exact h.elim
  | resourceAllocationFailed => exact h.elim

theorem parse_error {error : MimeTypesLoadError} (h : parse source = .error error) :
    (error.code = .fileTooLarge ∧ maximumFileBytes < source.length) ∨ Violates source error.line error.code := by
  unfold parse at h
  split at h
  · rename_i hsize
    cases h
    exact Or.inl ⟨rfl,hsize⟩
  · right
    split at h
    · rename_i failure hlines
      cases h
      exact violates_of_stops hlines
    · rename_i mappings numbers last hlines
      obtain ⟨-,hroom,rfl,rfl⟩ := parseLines_listings hlines
      split at h
      · rename_i failure hcreate
        cases h
        unfold MimeTypeRegistry.create at hcreate
        rw [if_neg (by rw [List.length_map]; omega)] at hcreate
        split at hcreate
        · rename_i hchecked
          cases hcreate
          obtain ⟨before,mapping,after,hsplit,hindex,hbreaks⟩ := checkMappings_error hchecked
          obtain ⟨front,back,hfound,rfl,hback⟩ := List.map_eq_append_iff.mp hsplit
          obtain ⟨listing,later,rfl,rfl,-⟩ := List.map_eq_cons_iff.mp hback
          have hline : ((listings source).map Listing.line)[failure.mappingIndex]? = some listing.line := by
            rw [hindex,hfound,List.length_map,Nat.zero_add,List.getElem?_map,List.getElem?_append_right (Nat.le_refl _),
              Nat.sub_self]
            rfl
          rw [hline]
          exact violates_of_breaks hfound hbreaks
        · cases hcreate
      · cases h

/-- Only a source that breaks a rule has a line that does. -/
theorem not_wellFormed_of_violates {line : ℕ} {code : MimeTypesLoadErrorCode} (h : Violates source line code) :
    ¬WellFormed source := by
  intro hformed
  have hline {before : List Bytes} {text : Bytes} (hat : LineAt source line before text) : Readable text := by
    obtain ⟨after,hlines,-⟩ := hat
    exact hformed.readable text (hlines ▸ List.mem_append_right _ List.mem_cons_self)
  cases code with
  | lineTooLong =>
    obtain ⟨before,text,hat,hlong⟩ := h
    exact Nat.not_le.mpr hlong (hline hat).size
  | invalidLine =>
    obtain ⟨before,text,hat,hsingle⟩ := h
    exact (hline hat).paired hsingle
  | tooManyEntries =>
    obtain ⟨before,text,⟨after,hlines,-⟩,-,hmany⟩ := h
    have hsplit : sourceLines source = (before ++ [text]) ++ after := by simpa using hlines
    have hentries := hformed.entries
    rw [listings,hsplit,listingsFrom_append,List.length_append] at hentries
    omega
  | invalidExtension =>
    obtain ⟨listing,hmem,-,hinvalid⟩ := h
    exact hinvalid (hformed.valid listing hmem).extension
  | invalidMediaType =>
    obtain ⟨listing,hmem,-,hinvalid⟩ := h
    exact hinvalid (hformed.valid listing hmem).mediaType
  | duplicateExtension =>
    obtain ⟨before,listing,after,hsplit,-,other,hother,hsame⟩ := h
    have hdistinct := hformed.distinct
    rw [hsplit,List.map_append,List.map_cons,List.nodup_append] at hdistinct
    exact hdistinct.2.2 _ (List.mem_map_of_mem hother) _ List.mem_cons_self hsame
  | _ => exact h

/-- A source is rejected exactly when it breaks a rule. -/
theorem parse_rejects_iff : (∃ error, parse source = .error error) ↔ ¬WellFormed source := by
  constructor
  · rintro ⟨error,h⟩
    rcases parse_error h with ⟨-,hsize⟩ | hviolates
    · exact fun hformed => Nat.not_le.mpr hsize hformed.size
    · exact not_wellFormed_of_violates hviolates
  · intro hbroken
    cases h : parse source with
    | error error => exact ⟨error,rfl⟩
    | ok registry => exact absurd (parse_ok h).1 hbroken

theorem not_wellFormed_iff : ¬WellFormed source ↔
      maximumFileBytes < source.length ∨
      (∃ text ∈ sourceLines source, maximumLineBytes < text.length ∨ (lineTokens text).length = 1) ∨
      (∃ listing ∈ listings source,
        ¬IsExtensionName (withoutDot listing.extension) ∨ ¬IsMediaType listing.mediaType) ∨
      ¬((listings source).map Listing.key).Nodup ∨ maximumEntries < (listings source).length := by
  constructor
  · intro h
    by_contra hnone
    rw [not_or,not_or,not_or,not_or,not_not] at hnone
    obtain ⟨hsize,hlines,hvalid,hdistinct,hentries⟩ := hnone
    refine h ⟨Nat.not_lt.mp hsize,?_,?_,hdistinct,Nat.not_lt.mp hentries⟩
    · intro text hmem
      constructor
      · exact Nat.not_lt.mp fun hlong => hlines ⟨text,hmem,Or.inl hlong⟩
      · exact fun hsingle => hlines ⟨text,hmem,Or.inr hsingle⟩
    · intro listing hmem
      constructor
      · exact not_not.mp fun hname => hvalid ⟨listing,hmem,Or.inl hname⟩
      · exact not_not.mp fun htype => hvalid ⟨listing,hmem,Or.inr htype⟩
  · rintro (hsize | ⟨text,hmem,hlong | hsingle⟩ | ⟨listing,hmem,hname | htype⟩ | hrepeated | hmany) h
    · exact Nat.not_lt.mpr h.size hsize
    · exact Nat.not_lt.mpr (h.readable text hmem).size hlong
    · exact (h.readable text hmem).paired hsingle
    · exact hname (h.valid listing hmem).extension
    · exact htype (h.valid listing hmem).mediaType
    · exact hrepeated h.distinct
    · exact Nat.not_lt.mpr h.entries hmany

/-- What a source says about the type of a path. -/
inductive Serves (source path : Bytes) : Bytes → Prop where
  | active {name : Bytes} : HasExtension path name → extensionKey name ∈ activeExtensions →
      Serves source path safeTextType
  | activeType {name : Bytes} {listing : Listing} : HasExtension path name → listing ∈ listings source →
      listing.key = extensionKey name → isActiveMediaType (listing.mediaType.map asciiLower) = true →
      Serves source path safeTextType
  | listed {name : Bytes} {listing : Listing} : HasExtension path name → extensionKey name ∉ activeExtensions →
      listing ∈ listings source → listing.key = extensionKey name →
      isActiveMediaType (listing.mediaType.map asciiLower) = false →
      Serves source path (listing.mediaType.map asciiLower)
  | unlisted {name : Bytes} : HasExtension path name → extensionKey name ∉ activeExtensions →
      (∀ listing ∈ listings source, listing.key ≠ extensionKey name) → Serves source path binaryFallback
  | bare : (∀ name, ¬HasExtension path name) → Serves source path binaryFallback

theorem exists_serves (source path : Bytes) : ∃ served, Serves source path served := by
  by_cases hname : ∃ name, HasExtension path name
  · obtain ⟨name,hname⟩ := hname
    by_cases hactive : extensionKey name ∈ activeExtensions
    · exact ⟨_,.active hname hactive⟩
    · by_cases hlisted : ∃ listing ∈ listings source, listing.key = extensionKey name
      · obtain ⟨listing,hmem,hkey⟩ := hlisted
        cases htype : isActiveMediaType (listing.mediaType.map asciiLower) with
        | true => exact ⟨_,.activeType hname hmem hkey htype⟩
        | false => exact ⟨_,.listed hname hactive hmem hkey htype⟩
      · exact ⟨_,.unlisted hname hactive fun listing hmem hkey => hlisted ⟨listing,hmem,hkey⟩⟩
  · exact ⟨_,.bare fun name h => hname ⟨name,h⟩⟩

/-- The registry of a source serves what the source says. -/
theorem contentType_of_serves {registry : MimeTypeRegistry} {path served : Bytes} (h : parse source = .ok registry)
    (hserves : Serves source path served) : registry.contentTypeForPath path = served := by
  have hmappings := (parse_ok h).2
  have hheld {listing : Listing} (hmem : listing ∈ listings source) : listing.normalized ∈ registry.mappings := by
    rw [hmappings]
    exact List.mem_mergeSort.mpr (List.mem_map_of_mem hmem)
  cases hserves with
  | active hname hactive => exact contentType_active hname hactive
  | @activeType name listing hname hmem hkey htype =>
    by_cases hactive : extensionKey name ∈ activeExtensions
    · exact contentType_active hname hactive
    · rw [contentType_mapped hname hactive (hheld hmem) hkey]
      exact if_pos htype
  | @listed name listing hname hactive hmem hkey htype =>
    rw [contentType_mapped hname hactive (hheld hmem) hkey]
    exact if_neg (Bool.eq_false_iff.mp htype)
  | unlisted hname hactive hnone =>
    apply contentType_unlisted hname hactive
    intro mapping hmem
    rw [hmappings] at hmem
    obtain ⟨listing,hlisting,rfl⟩ := List.mem_map.mp (List.mem_mergeSort.mp hmem)
    exact hnone listing hlisting
  | bare hnone => exact contentType_bare hnone

/-- Every path gets the type that the source lists for its extension, unless a browser would run it;
a source is refused for breaking a rule alone, and the error names a line that breaks it. -/
theorem mimeTypes_honour_source (source : Bytes) :
    (∀ registry, parse source = .ok registry → ((listings source).map Listing.key).Nodup ∧
      ∀ path, (∀ served, registry.contentTypeForPath path = served ↔ Serves source path served) ∧
        isActiveMediaType (registry.contentTypeForPath path) = false) ∧
    ((∃ error, parse source = .error error) ↔
      maximumFileBytes < source.length ∨
      (∃ text ∈ sourceLines source, maximumLineBytes < text.length ∨ (lineTokens text).length = 1) ∨
      (∃ listing ∈ listings source,
        ¬IsExtensionName (withoutDot listing.extension) ∨ ¬IsMediaType listing.mediaType) ∨
      ¬((listings source).map Listing.key).Nodup ∨ maximumEntries < (listings source).length) ∧
    ∀ error, parse source = .error error →
      (error.code = .fileTooLarge ∧ maximumFileBytes < source.length) ∨ Violates source error.line error.code := by
  refine ⟨?_,?_,fun error => parse_error⟩
  · intro registry h
    refine ⟨(parse_ok h).1.distinct,fun path => ⟨fun served => ⟨?_,contentType_of_serves h⟩,?_⟩⟩
    · rintro rfl
      obtain ⟨served,hserves⟩ := exists_serves source path
      rw [contentType_of_serves h hserves]
      exact hserves
    · exact contentType_inactive registry path
  · exact parse_rejects_iff.trans not_wellFormed_iff

end Loaded
end SpareNode.Bootstrap
