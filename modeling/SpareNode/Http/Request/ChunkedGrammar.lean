import SpareNode.Http.Request.BodyDecoder

/-! # The chunked-body grammar

`ChunkedText` is a chunked body taken apart: its chunks, the last size line and the
trailers. The readers of extensions and trailers accept exactly the texts of their
productions; a reader takes the longest token, and no text that may follow a token
starts with a token character.
-/
namespace SpareNode.Http

def semicolon : Byte := char ';'
def equalsSign : Byte := char '='

def IsWhitespace (s : Bytes) : Prop := s.all isOptionalWhitespace = true

/-- The text of a quoted string behind its opening quote. -/
inductive QuotedText : Bytes → Prop
  | close : QuotedText [quote]
  | byte {b : Byte} {rest : Bytes} (hq : b ≠ quote) (hs : b ≠ backslash)
      (hb : isHttpFieldValueByte b = true) (hr : QuotedText rest) : QuotedText (b :: rest)
  | pair {b : Byte} {rest : Bytes} (hb : isHttpFieldValueByte b = true) (hr : QuotedText rest) :
      QuotedText (backslash :: b :: rest)

inductive ExtensionValue : Bytes → Prop
  | token {v : Bytes} (hv : IsToken v) : ExtensionValue v
  | quoted {v : Bytes} (hv : QuotedText v) : ExtensionValue (quote :: v)

inductive Extension : Bytes → Prop
  | name {w w' n : Bytes} (hw : IsWhitespace w) (hw' : IsWhitespace w') (hn : IsToken n) :
      Extension (w ++ semicolon :: (w' ++ n))
  | value {w w' n x x' v : Bytes} (hw : IsWhitespace w) (hw' : IsWhitespace w') (hn : IsToken n)
      (hx : IsWhitespace x) (hx' : IsWhitespace x') (hv : ExtensionValue v) :
      Extension (w ++ semicolon :: (w' ++ n) ++ (x ++ equalsSign :: (x' ++ v)))

inductive Extensions : Bytes → Prop
  | nil : Extensions []
  | cons {e rest : Bytes} (he : Extension e) (hr : Extensions rest) : Extensions (e ++ rest)

def IsTrailer (line : Bytes) : Prop :=
  ∃ name value, line = name ++ char ':' :: value ∧ IsToken name ∧
    value.all isHttpFieldValueByte = true ∧
    ∀ forbidden ∈ forbiddenTrailers, asciiCaseInsensitiveEqual name forbidden = false

def IsSizeLine (line : Bytes) (size : ℕ) : Prop :=
  ∃ digits extensions, line = digits ++ extensions ∧ digits ≠ [] ∧
    digits.all (isDigit 16) = true ∧ size = numeral 16 digits ∧ size ≤ sizeMax ∧
    Extensions extensions

theorem takeQuoted_sound {text rest : Bytes} (h : takeQuoted text = some rest) :
    ∃ v, text = v ++ rest ∧ QuotedText v := by
  fun_induction takeQuoted text with
  | case1 => simp at h
  | case2 rest =>
    obtain rfl := Option.some.inj h
    exact ⟨[quote],rfl,.close⟩
  | case3 => simp at h
  | case4 escaped tail hb hq ih =>
    obtain ⟨v,rfl,hv⟩ := ih h
    exact ⟨_,rfl,.pair hb hv⟩
  | case5 => simp at h
  | case6 b tail hq hs hb ih =>
    obtain ⟨v,rfl,hv⟩ := ih h
    exact ⟨_,rfl,.byte hq hs hb hv⟩
  | case7 => simp at h

theorem takeQuoted_complete {v : Bytes} (h : QuotedText v) (rest : Bytes) :
    takeQuoted (v ++ rest) = some rest := by
  induction h with
  | close =>
    rw [List.singleton_append,takeQuoted.eq_def]
    simp
  | byte hq hs hb _ ih =>
    rw [List.cons_append,takeQuoted.eq_def]
    simp [hq,hs,hb,ih]
  | pair hb _ ih =>
    simp [takeQuoted,hb,ih,show backslash ≠ quote by decide]

theorem takeToken_sound {text rest : Bytes} (h : takeToken text = some rest) :
    ∃ v, text = v ++ rest ∧ IsToken v := by
  unfold takeToken at h
  split at h
  · next hh =>
    obtain rfl := Option.some.inj h
    refine ⟨text.takeWhile isHttpTokenCharacter,List.takeWhile_append_dropWhile.symm,?_,
      List.all_takeWhile⟩
    cases text with
    | nil => simp at hh
    | cons a text =>
      have ha : isHttpTokenCharacter a = true := by simpa using hh
      simp [ha]
  · simp at h

theorem takeToken_complete {v rest : Bytes} (hv : IsToken v)
    (hr : ∀ x ∈ rest.head?, isHttpTokenCharacter x = false) :
    takeToken (v ++ rest) = some rest := by
  obtain ⟨hne,hall⟩ := hv
  have hd := dropWhile_append_of hall hr
  obtain ⟨a,v,rfl⟩ := List.exists_cons_of_ne_nil hne
  simp only [List.all_cons,Bool.and_eq_true] at hall
  rw [takeToken,hd]
  simp [hall.1]

theorem skipWhitespace_sound (text : Bytes) :
    ∃ w, text = w ++ skipWhitespace text ∧ IsWhitespace w :=
  ⟨text.takeWhile isOptionalWhitespace,List.takeWhile_append_dropWhile.symm,List.all_takeWhile⟩

theorem skipWhitespace_complete {w rest : Bytes} (hw : IsWhitespace w)
    (hr : ∀ x ∈ rest.head?, isOptionalWhitespace x = false) : skipWhitespace (w ++ rest) = rest :=
  dropWhile_append_of hw hr

theorem semicolon_not_whitespace : isOptionalWhitespace semicolon = false := by decide
theorem equalsSign_not_whitespace : isOptionalWhitespace equalsSign = false := by decide

theorem IsToken.head_not_whitespace {v : Bytes} (hv : IsToken v) (rest : Bytes) :
    ∀ x ∈ (v ++ rest).head?, isOptionalWhitespace x = false := by
  obtain ⟨hne,hall⟩ := hv
  obtain ⟨a,v,rfl⟩ := List.exists_cons_of_ne_nil hne
  simp only [List.all_cons,Bool.and_eq_true] at hall
  simpa using not_whitespace_of_token hall.1

/-- What stands behind whitespace in front of a separator is no token character. -/
theorem whitespace_head_not_token {w : Bytes} (hw : IsWhitespace w) {c : Byte}
    (hc : isHttpTokenCharacter c = false) (rest : Bytes) :
    ∀ x ∈ (w ++ c :: rest).head?, isHttpTokenCharacter x = false := by
  cases w with
  | nil => simpa using hc
  | cons a w =>
    simp only [IsWhitespace,List.all_cons,Bool.and_eq_true] at hw
    intro x hx
    obtain rfl : a = x := by simpa using hx
    by_contra ht
    rw [not_whitespace_of_token (by simpa using ht)] at hw
    simp at hw

/-- Texts that may follow an extension: nothing, or whitespace and a semicolon. -/
def ExtensionEnd (rest : Bytes) : Prop :=
  rest = [] ∨ ∃ w tail, rest = w ++ semicolon :: tail ∧ IsWhitespace w

theorem Extensions.extensionEnd {text : Bytes} (h : Extensions text) : ExtensionEnd text := by
  cases h with
  | nil => exact Or.inl rfl
  | @cons e rest he hr =>
    cases he with
    | name hw _ _ => exact Or.inr ⟨_,_,by rw [List.append_assoc,List.cons_append],hw⟩
    | value hw _ _ _ _ _ =>
      exact Or.inr ⟨_,_,by rw [List.append_assoc,List.append_assoc,List.cons_append],hw⟩

theorem ExtensionEnd.head_not_token {rest : Bytes} (h : ExtensionEnd rest) :
    ∀ x ∈ rest.head?, isHttpTokenCharacter x = false := by
  rcases h with rfl | ⟨w,tail,rfl,hw⟩
  · simp
  · exact whitespace_head_not_token hw (by decide) tail

theorem takeExtensionValue_sound {text rest : Bytes} (h : takeExtensionValue text = some rest) :
    rest = text ∨ ∃ x x' v, text = x ++ equalsSign :: (x' ++ v) ++ rest ∧ IsWhitespace x ∧
      IsWhitespace x' ∧ ExtensionValue v := by
  unfold takeExtensionValue at h
  split at h
  · exact Or.inl (Option.some.inj h).symm
  · next separator afterName hs =>
    split at h
    · next heq =>
      subst heq
      right
      obtain ⟨x,hx,hxw⟩ := skipWhitespace_sound text
      obtain ⟨x',hx',hxw'⟩ := skipWhitespace_sound afterName
      split at h
      · simp at h
      · next first value hv =>
        split at h
        · next hq =>
          subst hq
          obtain ⟨v,rfl,hv'⟩ := takeQuoted_sound h
          refine ⟨x,x',quote :: v,?_,hxw,hxw',.quoted hv'⟩
          rw [hx,hs,hx',hv]
          simp [equalsSign]
        · obtain ⟨v,hvr,hv'⟩ := takeToken_sound h
          refine ⟨x,x',v,?_,hxw,hxw',.token hv'⟩
          rw [hx,hs,hx',hv,hvr]
          simp [equalsSign]
    · exact Or.inl (Option.some.inj h).symm

theorem takeExtensionValue_none {rest : Bytes} (h : ExtensionEnd rest) :
    takeExtensionValue rest = some rest := by
  rcases h with rfl | ⟨w,tail,rfl,hw⟩
  · rfl
  · rw [takeExtensionValue,skipWhitespace_complete hw (by simp [semicolon_not_whitespace])]
    simp [semicolon,show char ';' ≠ char '=' by decide]

theorem takeExtensionValue_complete {x x' v rest : Bytes} (hx : IsWhitespace x)
    (hx' : IsWhitespace x') (hv : ExtensionValue v) (hr : ExtensionEnd rest) :
    takeExtensionValue (x ++ equalsSign :: (x' ++ v) ++ rest) = some rest := by
  have hs : skipWhitespace (x ++ equalsSign :: (x' ++ v) ++ rest) =
      equalsSign :: (x' ++ (v ++ rest)) := by
    rw [List.append_assoc,List.cons_append,List.append_assoc]
    exact skipWhitespace_complete hx (by simp [equalsSign_not_whitespace])
  rw [takeExtensionValue,hs]
  dsimp only
  rw [if_pos (show equalsSign = char '=' from rfl)]
  cases hv with
  | token hv =>
    rw [skipWhitespace_complete hx' (hv.head_not_whitespace rest)]
    have ht := takeToken_complete hv hr.head_not_token
    obtain ⟨a,v,rfl⟩ := List.exists_cons_of_ne_nil hv.1
    have ha := hv.2
    simp only [List.all_cons,Bool.and_eq_true] at ha
    have hq : a ≠ quote := by
      rintro rfl
      exact absurd ha.1 (by decide)
    rw [List.cons_append] at ht ⊢
    dsimp only
    rw [if_neg hq,ht]
  | quoted hv =>
    rw [skipWhitespace_complete hx' (by simp; decide),List.cons_append]
    dsimp only
    rw [if_pos rfl,takeQuoted_complete hv]

theorem takeExtension_sound {text rest : Bytes} (h : takeExtension text = some rest) :
    ∃ e, text = e ++ rest ∧ Extension e := by
  unfold takeExtension at h
  split at h
  · simp at h
  · next separator tail hs =>
    split at h
    · next heq =>
      subst heq
      obtain ⟨w,hw,hww⟩ := skipWhitespace_sound text
      obtain ⟨w',hw',hww'⟩ := skipWhitespace_sound tail
      split at h
      · simp at h
      · next after ht =>
        obtain ⟨n,hn,hnt⟩ := takeToken_sound ht
        rw [hw,hs,hw',hn]
        rcases takeExtensionValue_sound h with rfl | ⟨x,x',v,rfl,hx,hx',hv⟩
        · exact ⟨_,by simp [semicolon],.name hww hww' hnt⟩
        · exact ⟨_,by simp [semicolon],.value hww hww' hnt hx hx' hv⟩
    · simp at h

theorem takeExtension_name {w w' n after : Bytes} (hw : IsWhitespace w) (hw' : IsWhitespace w')
    (hn : IsToken n) (ha : ∀ x ∈ after.head?, isHttpTokenCharacter x = false) :
    takeExtension (w ++ semicolon :: (w' ++ n) ++ after) = takeExtensionValue after := by
  have hs : skipWhitespace (w ++ semicolon :: (w' ++ n) ++ after) =
      semicolon :: (w' ++ (n ++ after)) := by
    rw [List.append_assoc,List.cons_append,List.append_assoc]
    exact skipWhitespace_complete hw (by simp [semicolon_not_whitespace])
  rw [takeExtension,hs]
  dsimp only
  rw [if_pos (show semicolon = char ';' from rfl),skipWhitespace_complete hw' (hn.head_not_whitespace after),
    takeToken_complete hn ha]

theorem takeExtension_complete {e rest : Bytes} (he : Extension e) (hr : ExtensionEnd rest) :
    takeExtension (e ++ rest) = some rest := by
  cases he with
  | name hw hw' hn =>
    rw [takeExtension_name hw hw' hn hr.head_not_token,takeExtensionValue_none hr]
  | @value w w' n x x' v hw hw' hn hx hx' hv =>
    rw [List.append_assoc,takeExtension_name hw hw' hn,takeExtensionValue_complete hx hx' hv hr]
    rw [List.append_assoc,List.cons_append]
    exact whitespace_head_not_token hx (by decide) _

theorem validExtensions_iff {text : Bytes} : validExtensions text = true ↔ Extensions text := by
  constructor
  · intro h
    fun_induction validExtensions text with
    | case1 => exact .nil
    | case2 => simp at h
    | case3 text hne rest hext ih =>
      obtain ⟨e,rfl,he⟩ := takeExtension_sound hext
      exact .cons he (ih h)
  · intro h
    induction h with
    | nil => simp [validExtensions]
    | @cons e rest he hr ih =>
      have hne : e ++ rest ≠ [] := by cases he <;> simp
      rw [validExtensions,if_neg hne,takeExtension_complete he hr.extensionEnd]
      exact ih

theorem token_of_hexadecimal {b : Byte} (h : isDigit 16 b = true) :
    isHttpTokenCharacter b = true := by
  have hb : isAsciiDigit b = true ∨ isAsciiLetter b = true := by
    simp only [isDigit,digitValue,isAsciiDigit,isAsciiLetter,char] at h ⊢
    grind
  rcases hb with hb | hb <;> simp [isHttpTokenCharacter,hb]

theorem isSizeLine_iff {line : Bytes} {size : ℕ} :
    IsSizeLine line size ↔
      ∃ extensions, fromChars 16 sizeMax line = some (size,extensions) ∧
        validExtensions extensions = true := by
  constructor
  · rintro ⟨digits,extensions,rfl,hne,hall,rfl,hle,hext⟩
    refine ⟨extensions,fromChars_eq_some_iff.mpr ⟨digits,rfl,hne,hall,?_,rfl,hle⟩,
      validExtensions_iff.mpr hext⟩
    intro x hx
    have hx' := hext.extensionEnd.head_not_token x hx
    by_contra hd
    rw [token_of_hexadecimal (by simpa using hd)] at hx'
    simp at hx'
  · rintro ⟨extensions,h,hext⟩
    obtain ⟨digits,rfl,hne,hall,-,hsize,hle⟩ := fromChars_eq_some_iff.mp h
    exact ⟨digits,extensions,rfl,hne,hall,hsize,hle,validExtensions_iff.mp hext⟩

theorem forbidden_iff (name : Bytes) :
    forbiddenTrailers.contains (name.map asciiLower) = false ↔
      ∀ forbidden ∈ forbiddenTrailers, asciiCaseInsensitiveEqual name forbidden = false := by
  have hlower : ∀ f ∈ forbiddenTrailers, f.map asciiLower = f := by decide
  rw [List.contains_eq_mem,decide_eq_false_iff_not]
  constructor
  · intro h f hf
    by_contra heq
    rw [Bool.not_eq_false,asciiCaseInsensitiveEqual_iff,hlower f hf] at heq
    exact h (heq ▸ hf)
  · intro h hm
    have heq := h _ hm
    rw [Bool.eq_false_iff,ne_eq,asciiCaseInsensitiveEqual_iff,hlower _ hm] at heq
    exact heq rfl

theorem validTrailer_iff {line : Bytes} : validTrailer line = true ↔ IsTrailer line := by
  constructor
  · intro h
    unfold validTrailer at h
    split at h
    · simp at h
    · next at_ hat =>
      obtain ⟨name,value,rfl,hn,rfl⟩ := find_eq_some_iff.mp hat
      rw [List.take_left] at h
      split at h
      · simp at h
      · next hname =>
        rw [not_or,Bool.not_eq_false] at hname
        split at h
        · simp at h
        · next hforbidden =>
          refine ⟨name,value,rfl,⟨fun hnil => hname.1 (by simp [hnil]),hname.2⟩,?_,
            (forbidden_iff name).mp (by simpa using hforbidden)⟩
          rw [← List.drop_drop,List.drop_left] at h
          exact h
  · rintro ⟨name,value,rfl,⟨hne,hall⟩,hvalue,hforbidden⟩
    have hcolon : char ':' ∉ name := not_mem_of_all hall (by decide)
    have hdrop : (name ++ char ':' :: value).drop (name.length + 1) = value := by
      rw [← List.drop_drop,List.drop_left]
      rfl
    rw [validTrailer,find_append value hcolon]
    dsimp only
    rw [List.take_left,hdrop,if_neg (by simp [hne,hall]),(forbidden_iff name).mpr hforbidden]
    simpa using hvalue

theorem not_mem_of_fieldValue {s : Bytes} (h : s.all isHttpFieldValueByte = true) :
    cr ∉ s ∧ lf ∉ s :=
  ⟨not_mem_of_all h (by decide),not_mem_of_all h (by decide)⟩

theorem not_mem_of_token {s : Bytes} (h : IsToken s) : cr ∉ s ∧ lf ∉ s :=
  ⟨not_mem_of_all h.2 (by decide),not_mem_of_all h.2 (by decide)⟩

theorem not_mem_of_whitespace {s : Bytes} (h : IsWhitespace s) : cr ∉ s ∧ lf ∉ s :=
  ⟨not_mem_of_all h (by decide),not_mem_of_all h (by decide)⟩

theorem QuotedText.fieldValue {s : Bytes} (h : QuotedText s) :
    s.all isHttpFieldValueByte = true := by
  induction h with
  | close => decide
  | byte _ _ hb _ ih => simp [hb,ih]
  | pair hb _ ih => simp [hb,ih,show isHttpFieldValueByte backslash = true by decide]

theorem ExtensionValue.not_mem {s : Bytes} (h : ExtensionValue s) : cr ∉ s ∧ lf ∉ s := by
  cases h with
  | token hv => exact not_mem_of_token hv
  | quoted hv =>
    have h := not_mem_of_fieldValue hv.fieldValue
    exact ⟨by simp [h,show cr ≠ quote by decide],by simp [h,show lf ≠ quote by decide]⟩

theorem Extension.not_mem {s : Bytes} (h : Extension s) : cr ∉ s ∧ lf ∉ s := by
  cases h with
  | name hw hw' hn =>
    have h1 := not_mem_of_whitespace hw
    have h2 := not_mem_of_whitespace hw'
    have h3 := not_mem_of_token hn
    simp [h1,h2,h3,show cr ≠ semicolon by decide,show lf ≠ semicolon by decide]
  | value hw hw' hn hx hx' hv =>
    have h1 := not_mem_of_whitespace hw
    have h2 := not_mem_of_whitespace hw'
    have h3 := not_mem_of_token hn
    have h4 := not_mem_of_whitespace hx
    have h5 := not_mem_of_whitespace hx'
    have h6 := hv.not_mem
    simp [h1,h2,h3,h4,h5,h6,show cr ≠ semicolon by decide,show lf ≠ semicolon by decide,
      show cr ≠ equalsSign by decide,show lf ≠ equalsSign by decide]

theorem Extensions.not_mem {s : Bytes} (h : Extensions s) : cr ∉ s ∧ lf ∉ s := by
  induction h with
  | nil => simp
  | cons he _ ih =>
    have h := he.not_mem
    simp [h,ih]

theorem IsSizeLine.not_mem {line : Bytes} {size : ℕ} (h : IsSizeLine line size) :
    cr ∉ line ∧ lf ∉ line := by
  obtain ⟨digits,extensions,rfl,-,hall,-,-,hext⟩ := h
  have h := hext.not_mem
  have hc : cr ∉ digits := not_mem_of_all hall (by decide)
  have hl : lf ∉ digits := not_mem_of_all hall (by decide)
  simp [h,hc,hl]

theorem IsTrailer.not_mem {line : Bytes} (h : IsTrailer line) : cr ∉ line ∧ lf ∉ line := by
  obtain ⟨name,value,rfl,hname,hvalue,-⟩ := h
  have h1 := not_mem_of_token hname
  have h2 := not_mem_of_fieldValue hvalue
  simp [h1,h2,show cr ≠ char ':' by decide,show lf ≠ char ':' by decide]

theorem IsTrailer.ne_nil {line : Bytes} (h : IsTrailer line) : line ≠ [] := by
  obtain ⟨name,value,rfl,-⟩ := h
  simp

/-- One chunk: its size line and its data. -/
structure Chunk where
  line : Bytes
  data : Bytes

def Chunk.render (c : Chunk) : Bytes := c.line ++ crlf ++ c.data ++ crlf

/-- A chunk that announces its nonempty data on a line within the limit. -/
structure Chunk.Valid (limits : HttpRequestParserLimits) (c : Chunk) : Prop where
  line : IsSizeLine c.line c.data.length
  data : c.data ≠ []
  lineSize : c.line.length ≤ limits.maxChunkLineBytes

structure ChunkedText where
  chunks : List Chunk
  lastLine : Bytes
  trailers : List Bytes

def renderChunks (chunks : List Chunk) : Bytes := (chunks.map Chunk.render).flatten
def chunksData (chunks : List Chunk) : Bytes := (chunks.map Chunk.data).flatten
def renderTrailers (trailers : List Bytes) : Bytes := (trailers.map (· ++ crlf)).flatten

namespace ChunkedText

def trailerSection (t : ChunkedText) : Bytes := renderTrailers t.trailers ++ crlf
def render (t : ChunkedText) : Bytes :=
  renderChunks t.chunks ++ (t.lastLine ++ crlf) ++ t.trailerSection
def payload (t : ChunkedText) : Bytes := chunksData t.chunks

/-- The grammar of a chunked body and its five limits. Every byte that is not chunk
data is metadata. -/
structure Valid (limits : HttpRequestParserLimits) (t : ChunkedText) : Prop where
  chunks : ∀ c ∈ t.chunks, c.Valid limits
  lastLine : IsSizeLine t.lastLine 0
  lastLineSize : t.lastLine.length ≤ limits.maxChunkLineBytes
  trailers : ∀ line ∈ t.trailers, IsTrailer line
  dataSize : t.payload.length ≤ limits.maxBodyBytes
  metadataSize : t.render.length ≤ t.payload.length + limits.maxChunkMetadataBytes
  trailerSize : t.trailerSection.length ≤ limits.maxTrailerBytes
  trailerCount : t.trailers.length ≤ limits.maxTrailerCount

end ChunkedText
end SpareNode.Http
