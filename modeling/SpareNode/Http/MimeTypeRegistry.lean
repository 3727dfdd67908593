import Mathlib.Data.List.Forall2
import SpareNode.Http.Ascii
import SpareNode.Library.SortedSearch

/-! # The MIME type registry

Extensions with their media types, checked and sorted once, and searched by halving for every path.
What a browser would run is served as plain text, be it by its extension or by its type.
-/
namespace SpareNode.Http

def binaryFallback : Bytes := ascii "application/octet-stream"
def safeTextType : Bytes := ascii "text/plain; charset=utf-8"

def activeExtensions : List Bytes :=
  [ascii ".css",ascii ".htm",ascii ".html",ascii ".js",ascii ".mjs",ascii ".svg",ascii ".svgz",ascii ".xht",
    ascii ".xhtml",ascii ".xml",ascii ".xsl",ascii ".xslt"]

def maximumEntries : ℕ := 4096
def maximumExtensionBytes : ℕ := 32
def maximumMediaTypeBytes : ℕ := 127

structure MimeTypeMapping where
  extension : Bytes
  mediaType : Bytes
deriving DecidableEq, Repr

inductive MimeTypeRegistryErrorCode where
  | invalidExtension | invalidMediaType | duplicateExtension | tooManyEntries | resourceAllocationFailed
deriving DecidableEq, Repr

structure MimeTypeRegistryError where
  code : MimeTypeRegistryErrorCode
  mappingIndex : ℕ
deriving DecidableEq, Repr

def isValidMediaType (value : Bytes) : Bool :=
  if value = [] ∨ maximumMediaTypeBytes < value.length then false
  else
    match find (char '/') value with
    | none => false
    | some separator =>
      if separator = 0 ∨ separator + 1 = value.length ∨ (findFrom (char '/') value (separator + 1)).isSome then false
      else value.all fun byte => byte = char '/' || isHttpTokenCharacter byte

/-- The bytes that `normalize_extension` lets through. -/
def isExtensionCharacter (byte : Byte) : Bool :=
  isAsciiDigit byte || isAsciiLetter byte || byte = char '+' || byte = char '-' || byte = char '_'

/-- The extension without the dot that it may start with. -/
def withoutDot (extension : Bytes) : Bytes :=
  if extension.head? = some (char '.') then extension.drop 1 else extension

/-- `normalize_extension`; no value stands for a refused extension. -/
def normalizeExtension (extension : Bytes) : Option Bytes :=
  let extension := withoutDot extension
  if extension = [] ∨ maximumExtensionBytes < extension.length ∨ extension.all isExtensionCharacter = false then none
  else some (char '.' :: extension.map asciiLower)

/-- The bytes of a `std::string` are compared as unsigned ones. -/
def below (extension : Bytes) (other : Bytes) : Bool := decide (other < extension)

/-- `is_active_extension`, by `std::ranges::binary_search`. -/
def isActiveExtension (extension : Bytes) : Bool :=
  match activeExtensions[SortedSearch.partitionPoint (below extension) activeExtensions]? with
  | none => false
  | some found => !decide (extension < found)

def isActiveMediaType (mediaType : Bytes) : Bool :=
  if mediaType = ascii "application/wasm" ∨ mediaType = ascii "text/css" ∨ mediaType = ascii "text/html" ∨
      (ascii "+xml").isSuffixOf mediaType then true
  else
    let subtype := match find (char '/') mediaType with
      | none => mediaType
      | some separator => mediaType.drop (separator + 1)
    subtype = ascii "xml" || decide (ascii "javascript" <:+: subtype) || decide (ascii "ecmascript" <:+: subtype) ||
      mediaType = ascii "text/jscript" || mediaType = ascii "text/livescript"

/-- The loop of `MimeTypeRegistry::create` with the extensions it has seen. -/
def checkMappings (index : ℕ) (extensions : List Bytes) :
    List MimeTypeMapping → Except MimeTypeRegistryError (List MimeTypeMapping)
  | [] => .ok []
  | mapping :: rest =>
    match normalizeExtension mapping.extension with
    | none => .error ⟨.invalidExtension,index⟩
    | some extension =>
      if !isValidMediaType mapping.mediaType then .error ⟨.invalidMediaType,index⟩
      else if extension ∈ extensions then .error ⟨.duplicateExtension,index⟩
      else
        match checkMappings (index + 1) (extension :: extensions) rest with
        | .error e => .error e
        | .ok mappings => .ok (⟨extension,mapping.mediaType.map asciiLower⟩ :: mappings)

/-- `std::ranges::stable_sort(mappings, {}, &MimeTypeMapping::extension)`. -/
def sortMappings (mappings : List MimeTypeMapping) : List MimeTypeMapping :=
  mappings.mergeSort fun left right => decide (left.extension ≤ right.extension)

structure Normalizes (mapping normalized : MimeTypeMapping) : Prop where
  extension : normalizeExtension mapping.extension = some normalized.extension
  valid : isValidMediaType mapping.mediaType = true
  mediaType : normalized.mediaType = mapping.mediaType.map asciiLower

theorem exists_source {mappings checked : List MimeTypeMapping} (h : List.Forall₂ Normalizes mappings checked) :
    ∀ normalized ∈ checked, ∃ mapping ∈ mappings, Normalizes mapping normalized := by
  induction h with
  | nil => exact nofun
  | cons hfirst hrest ih =>
    refine List.forall_mem_cons.mpr ⟨⟨_,List.mem_cons_self,hfirst⟩,?_⟩
    intro normalized hmem
    obtain ⟨mapping,hmapping,hnormalizes⟩ := ih normalized hmem
    exact ⟨mapping,List.mem_cons_of_mem _ hmapping,hnormalizes⟩

theorem checkMappings_ok {index : ℕ} {extensions : List Bytes} {mappings checked : List MimeTypeMapping}
    (h : checkMappings index extensions mappings = .ok checked) :
    List.Forall₂ Normalizes mappings checked ∧ (checked.map MimeTypeMapping.extension).Nodup ∧
      ∀ mapping ∈ checked, mapping.extension ∉ extensions := by
  induction mappings generalizing index extensions checked with
  | nil =>
    cases h
    exact ⟨.nil,List.nodup_nil,nofun⟩
  | cons mapping rest ih =>
    rw [checkMappings] at h
    split at h
    · cases h
    · rename_i extension hextension
      split at h
      · cases h
      · rename_i hvalid
        split at h
        · cases h
        · rename_i hnew
          split at h
          · cases h
          · rename_i others hothers
            cases h
            obtain ⟨hall,hdistinct,hunseen⟩ := ih hothers
            refine ⟨.cons ⟨hextension,by simpa using hvalid,rfl⟩ hall,?_,?_⟩
            · rw [List.map_cons,List.nodup_cons]
              refine ⟨?_,hdistinct⟩
              intro hmem
              obtain ⟨other,hother,hsame⟩ := List.mem_map.mp hmem
              exact hunseen other hother (hsame ▸ List.mem_cons_self)
            · intro other hother
              rcases List.mem_cons.mp hother with rfl | hlater
              · exact hnew
              · exact fun hmem => hunseen other hlater (List.mem_cons_of_mem _ hmem)

/-- The rule that a mapping breaks, given the mappings before it. -/
def Breaks (extensions : List Bytes) (before : List MimeTypeMapping) (mapping : MimeTypeMapping) :
    MimeTypeRegistryErrorCode → Prop
  | .invalidExtension => normalizeExtension mapping.extension = none
  | .invalidMediaType => isValidMediaType mapping.mediaType = false
  | .duplicateExtension => ∃ extension, normalizeExtension mapping.extension = some extension ∧
      (extension ∈ extensions ∨ ∃ other ∈ before, normalizeExtension other.extension = some extension)
  | _ => False

theorem checkMappings_error {index : ℕ} {extensions : List Bytes} {mappings : List MimeTypeMapping}
    {error : MimeTypeRegistryError} (h : checkMappings index extensions mappings = .error error) :
    ∃ before mapping after, mappings = before ++ mapping :: after ∧ error.mappingIndex = index + before.length ∧
      Breaks extensions before mapping error.code := by
  induction mappings generalizing index extensions with
  | nil => cases h
  | cons mapping rest ih =>
    rw [checkMappings] at h
    split at h
    · rename_i hextension
      cases h
      exact ⟨[],mapping,rest,rfl,rfl,hextension⟩
    · rename_i extension hextension
      split at h
      · rename_i hvalid
        cases h
        exact ⟨[],mapping,rest,rfl,rfl,(Bool.not_eq_true' _).mp hvalid⟩
      · split at h
        · rename_i hseen
          cases h
          exact ⟨[],mapping,rest,rfl,rfl,extension,hextension,Or.inl hseen⟩
        · split at h
          · rename_i e hrest
            cases h
            obtain ⟨before,broken,after,hsplit,hindex,hbreaks⟩ := ih hrest
            refine ⟨mapping :: before,broken,after,by rw [hsplit]; rfl,?_,?_⟩
            · rw [hindex,List.length_cons]
              omega
            · cases hcode : error.code with
              | invalidExtension =>
                rw [hcode] at hbreaks
                exact hbreaks
              | invalidMediaType =>
                rw [hcode] at hbreaks
                exact hbreaks
              | duplicateExtension =>
                rw [hcode] at hbreaks
                obtain ⟨name,hname,hseen | ⟨other,hother,hsame⟩⟩ := hbreaks
                · rcases List.mem_cons.mp hseen with rfl | hold
                  · exact ⟨name,hname,Or.inr ⟨mapping,List.mem_cons_self,hextension⟩⟩
                  · exact ⟨name,hname,Or.inl hold⟩
                · exact ⟨name,hname,Or.inr ⟨other,List.mem_cons_of_mem _ hother,hsame⟩⟩
              | tooManyEntries =>
                rw [hcode] at hbreaks
                exact hbreaks
              | resourceAllocationFailed =>
                rw [hcode] at hbreaks
                exact hbreaks
          · cases h

/-- Mappings in strict order of their extensions, each of them normalized. -/
structure Sorted (mappings : List MimeTypeMapping) : Prop where
  increasing : mappings.Pairwise (fun left right => left.extension < right.extension)
  normalized : ∀ mapping ∈ mappings, ∃ source, Normalizes source mapping

theorem sortMappings_sorted {index : ℕ} {mappings checked : List MimeTypeMapping}
    (h : checkMappings index [] mappings = .ok checked) : Sorted (sortMappings checked) := by
  obtain ⟨hall,hdistinct,-⟩ := checkMappings_ok h
  refine ⟨SortedSearch.mergeSort_increasing hdistinct,?_⟩
  intro mapping hmem
  obtain ⟨source,-,hnormalizes⟩ := exists_source hall mapping (List.mem_mergeSort.mp hmem)
  exact ⟨source,hnormalizes⟩

structure MimeTypeRegistry where
  mappings : List MimeTypeMapping
  sorted : Sorted mappings

def noMimeTypes : MimeTypeRegistry := ⟨[],⟨.nil,fun _ h => absurd h List.not_mem_nil⟩⟩

namespace MimeTypeRegistry

def create (mappings : List MimeTypeMapping) : Except MimeTypeRegistryError MimeTypeRegistry :=
  if maximumEntries < mappings.length then .error ⟨.tooManyEntries,maximumEntries⟩
  else
    match hchecked : checkMappings 0 [] mappings with
    | .error e => .error e
    | .ok checked => .ok ⟨sortMappings checked,sortMappings_sorted hchecked⟩

def findLastOf (characters : Bytes) : Bytes → Option ℕ
  | [] => none
  | byte :: rest =>
    match findLastOf characters rest with
    | some index => some (index + 1)
    | none => if byte ∈ characters then some 0 else none

def contentTypeForPath (registry : MimeTypeRegistry) (path : Bytes) : Bytes :=
  match findLastOf (ascii ".") path with
  | none => binaryFallback
  | some dot =>
    if (findLastOf (ascii "/\\") path).any (fun slash => dot < slash) ∨ dot + 1 = path.length then binaryFallback
    else if maximumExtensionBytes + 1 < path.length - dot then binaryFallback
    else
      let extension := (path.drop dot).map asciiLower
      if isActiveExtension extension then safeTextType
      else
        match registry.mappings[SortedSearch.partitionPoint (fun mapping => below extension mapping.extension)
          registry.mappings]? with
        | none => binaryFallback
        | some mapping =>
          if mapping.extension ≠ extension then binaryFallback
          else if isActiveMediaType mapping.mediaType then safeTextType
          else mapping.mediaType

end MimeTypeRegistry
end SpareNode.Http
