import SpareNode.Configuration.TokenStream
import SpareNode.Foundation.Decimal

/-! # The accepted language

The parser accepts the renderings of configurations and nothing else, and returns the configuration that
was rendered.
-/
namespace SpareNode.Configuration
open Utf8 ParserState

section Directives
variable {p p' : ParserState} {symbols : List Symbol} {expected : ConfigParserExpectation}

theorem parseDirective_stream {name : Bytes} {scalar : ParsedConfigScalar} (hexpected : scalar.expectation = expected)
    (h : Stream p (.word name :: scalar.symbol :: .semicolon :: symbols)) :
    ∃ value p', p.parseDirective expected = .ok (value,p') ∧ value.scalar = scalar ∧ Stream p' symbols := by
  subst hexpected
  obtain ⟨-,atValue,hname,hvalue⟩ := h.next
  obtain ⟨hmatch,atSemicolon,hadvance,hsemicolon⟩ := hvalue.next
  obtain ⟨hmark,p',hlast,hrest⟩ := hsemicolon.next
  obtain ⟨hkind,hscalar⟩ := matches_scalar hmatch
  refine ⟨⟨scalar,atValue.current.location⟩,p',?_,rfl,hrest⟩
  have hparse : atValue.parseValue scalar.expectation = .ok (⟨scalar,atValue.current.location⟩,atSemicolon) := by
    simp only [parseValue,hkind,ne_eq,not_true_eq_false,if_false,hscalar,hadvance]
  have hconsume : atSemicolon.consume .semicolon .semicolon = .ok p' := by
    simp only [consume,hmark.kind,Symbol.kind,ne_eq,not_true_eq_false,if_false,hlast]
  simp only [parseDirective,hname,hparse,hconsume]

/-- What is parsed as a directive is one of the grammar. -/
theorem stream_parseDirective {value : ParsedConfigValue} (hp : Fresh p) (hkind : p.current.kind = .identifier)
    (h : p.parseDirective expected = .ok (value,p')) (htyped : value.scalar.expectation = expected)
    (hstream : Stream p' symbols) :
    Stream p (.word p.current.lexeme :: value.scalar.symbol :: .semicolon :: symbols) := by
  subst htyped
  obtain ⟨atValue,atSemicolon,hname,hvalue,hsemicolon,hlast⟩ := parseDirective_ok h
  obtain ⟨htoken,hscalar,-,hadvance⟩ := parseValue_ok hvalue
  have hlast' : Stream atSemicolon (.semicolon :: symbols) :=
    Stream.cons ⟨_,hadvance⟩ (Fresh.mark ⟨_,hadvance⟩ (by simp) hsemicolon) hlast hstream
  have hvalue' : Stream atValue (value.scalar.symbol :: .semicolon :: symbols) :=
    Stream.cons ⟨_,hname⟩ (scalar_matches ⟨_,hname⟩ htoken hscalar) hadvance hlast'
  exact Stream.cons hp (hp.word hkind) hname hvalue'

theorem parseDirective_fresh {value : ParsedConfigValue} (h : p.parseDirective expected = .ok (value,p')) : Fresh p' := by
  obtain ⟨-,atSemicolon,-,-,-,hlast⟩ := parseDirective_ok h
  exact ⟨_,hlast⟩

end Directives

theorem Symbol.Matches.word {p : ParserState} {name : Bytes} (h : (Symbol.word name).Matches p.current) :
    p.current.kind = .identifier ∧ p.current.lexeme = name := by
  obtain ⟨hkind,hprints,-⟩ := h
  generalize p.current.lexeme = x at hprints
  cases hprints with
  | word => exact ⟨hkind,rfl⟩

section Locations
variable {p p' : ParserState} {symbols : List Symbol}

theorem parseLocationItem_stream {d : LocationDirective} (h : Stream p (d.symbols ++ symbols)) :
    ∃ directive p', p.parseLocationItem = .ok (directive,p') ∧ directive.erased = d ∧ Stream p' symbols := by
  obtain ⟨value,p',hparse,hscalar,hrest⟩ := parseDirective_stream d.typed h
  obtain ⟨hkind,hname⟩ := h.next.1.word
  obtain ⟨directive,hdirective,hsame,hvalue⟩ := parseLocationDirective_of hparse
  have hitem : p.parseLocationItem = .ok (directive,p') := by
    simp only [parseLocationItem,locationDirectiveKind_iff.mpr hname,hkind,ne_eq,not_true_eq_false,if_false,hdirective]
  refine ⟨directive,p',hitem,?_,hrest⟩
  obtain ⟨kind,scalar,typed⟩ := d
  simp only [ParsedLocationDirective.erased,hsame,hvalue,hscalar]

theorem stream_parseLocationItem {directive : ParsedLocationDirective} (hp : Fresh p)
    (h : p.parseLocationItem = .ok (directive,p')) (hstream : Stream p' symbols) :
    Stream p (directive.erased.symbols ++ symbols) := by
  obtain ⟨hidentifier,hkind,hparse⟩ := parseLocationItem_ok h
  have hdirective := stream_parseDirective hp hidentifier hparse directive.typed hstream
  rwa [locationDirectiveKind_iff.mp hkind] at hdirective

theorem parseLocationItems_stream (ds : List LocationDirective) (directives : List ParsedLocationDirective)
    (h : Stream p (ds.flatMap LocationDirective.symbols ++ .rightBrace :: symbols)) :
    ∃ parsed p', p.parseLocationItems directives = .ok (directives ++ parsed,p') ∧
      parsed.map ParsedLocationDirective.erased = ds ∧ Stream p' (.rightBrace :: symbols) := by
  induction ds generalizing p directives with
  | nil =>
    refine ⟨[],p,?_,rfl,h⟩
    rw [parseLocationItems_stop h.1.kind,List.append_nil]
  | cons d ds ih =>
    rw [List.flatMap_cons,List.append_assoc] at h
    obtain ⟨directive,p₁,hitem,rfl,hrest⟩ := parseLocationItem_stream h
    obtain ⟨parsed,p',hitems,rfl,hend⟩ := ih (directives ++ [directive]) hrest
    refine ⟨directive :: parsed,p',?_,rfl,hend⟩
    rw [parseLocationItems_step hitem,hitems,List.append_assoc]
    rfl

theorem stream_parseLocationItems {directives all : List ParsedLocationDirective} (hp : Fresh p)
    (h : p.parseLocationItems directives = .ok (all,p')) : Fresh p' ∧ ∃ parsed, all = directives ++ parsed ∧
      ∀ symbols, Stream p' symbols →
        Stream p ((parsed.map ParsedLocationDirective.erased).flatMap LocationDirective.symbols ++ symbols) := by
  fun_induction parseLocationItems p directives with
  | case1 =>
    cases h
    exact ⟨hp,[],(List.append_nil _).symm,fun _ hstream => hstream⟩
  | case2 => cases h
  | case3 p directives _ directive p₁ hitem ih =>
    obtain ⟨hfresh,parsed,rfl,hparsed⟩ := ih (parseDirective_fresh (parseLocationItem_ok hitem).2.2) h
    refine ⟨hfresh,directive :: parsed,by simp,fun symbols hstream => ?_⟩
    rw [List.map_cons,List.flatMap_cons,List.append_assoc]
    exact stream_parseLocationItem hp hitem (hparsed symbols hstream)

theorem parseLocation_stream {b : LocationBlock} (h : Stream p (b.symbols ++ symbols)) :
    ∃ location p', p.parseLocation = .ok (location,p') ∧ location.erased = b ∧ Stream p' symbols := by
  obtain ⟨apiPath,ds⟩ := b
  simp only [LocationBlock.symbols,List.append_assoc,List.cons_append,List.nil_append] at h
  obtain ⟨-,atPath,hpath,h⟩ := h.next
  obtain ⟨hstring,atBrace,hbrace,h⟩ := h.next
  obtain ⟨hopen,atItems,hitems,h⟩ := h.next
  obtain ⟨parsed,atClose,hparsed,rfl,hbody⟩ := parseLocationItems_stream ds [] h
  obtain ⟨hclose,p',hlast,hrest⟩ := hbody.next
  have hconsume : atBrace.consume .leftBrace .leftBrace = .ok atItems := by
    simp only [consume,hopen.kind,Symbol.kind,ne_eq,not_true_eq_false,if_false,hitems]
  refine ⟨⟨atPath.current.decodedString.getD [],p.current.location,atPath.current.location,atClose.current.location,
    [] ++ parsed⟩,p',?_,?_,hrest⟩
  · simp only [parseLocation,hpath,hstring.kind,Symbol.kind,ne_eq,not_true_eq_false,if_false,hbrace,hconsume,hparsed,
      hclose.kind,hlast]
  · simp [ParsedLocationBlock.erased,hstring.decoded apiPath rfl]

theorem stream_parseLocation {location : ParsedLocationBlock} (hp : Fresh p) (hkind : p.current.kind = .identifier)
    (hname : p.current.lexeme = ascii "location") (h : p.parseLocation = .ok (location,p'))
    (hstream : Stream p' symbols) : Stream p (location.erased.symbols ++ symbols) := by
  obtain ⟨atPath,atBrace,atItems,atClose,hpath,hstring,hvalue,hbrace,hopen,hitems,hdirectives,hclose,hlast⟩ :=
    parseLocation_ok h
  obtain ⟨hfresh,parsed,hparsed,hloop⟩ := stream_parseLocationItems ⟨_,hitems⟩ hdirectives
  rw [List.nil_append] at hparsed
  have hend := Stream.cons hfresh (hfresh.mark (Or.inr (Or.inl rfl)) hclose) hlast hstream
  have hbody := hloop _ hend
  have hblock := Stream.cons ⟨_,hbrace⟩ (Fresh.mark ⟨_,hbrace⟩ (Or.inl rfl) hopen) hitems hbody
  have hargument := Stream.cons ⟨_,hpath⟩ (Fresh.string ⟨_,hpath⟩ hstring) hbrace hblock
  have hword := Stream.cons hp (hp.word hkind) hpath hargument
  rw [hname,hvalue] at hword
  simp only [LocationBlock.symbols,ParsedLocationBlock.erased,List.append_assoc,List.cons_append,List.nil_append,hparsed]
  exact hword

theorem parseLocation_fresh {location : ParsedLocationBlock} (h : p.parseLocation = .ok (location,p')) : Fresh p' := by
  obtain ⟨-,-,-,atClose,-,-,-,-,-,-,-,-,hlast⟩ := parseLocation_ok h
  exact ⟨_,hlast⟩

end Locations

/-- `server'` is `server` with the items appended, up to source locations. -/
structure Extends (server server' : ParsedServerBlock) (items : List ServerItem) : Prop where
  directives : ∃ parsed, server'.directives = server.directives ++ parsed ∧
    parsed.map ParsedServerDirective.erased = items.filterMap ServerItem.directive?
  locations : ∃ parsed, server'.locations = server.locations ++ parsed ∧
    parsed.map ParsedLocationBlock.erased = items.filterMap ServerItem.location?

section Server
variable {p p' : ParserState} {symbols : List Symbol} {server server' server'' : ParsedServerBlock}
  {items : List ServerItem}

theorem Extends.refl (server : ParsedServerBlock) : Extends server server [] :=
  ⟨⟨[],(List.append_nil _).symm,rfl⟩,⟨[],(List.append_nil _).symm,rfl⟩⟩

theorem Extends.trans {items' : List ServerItem} (h : Extends server server' items) (h' : Extends server' server'' items') :
    Extends server server'' (items ++ items') := by
  obtain ⟨⟨ds,hds,hds'⟩,⟨ls,hls,hls'⟩⟩ := h
  obtain ⟨⟨es,hes,hes'⟩,⟨ms,hms,hms'⟩⟩ := h'
  refine ⟨⟨ds ++ es,?_,?_⟩,⟨ls ++ ms,?_,?_⟩⟩
  · rw [hes,hds,List.append_assoc]
  · rw [List.map_append,hds',hes',List.filterMap_append]
  · rw [hms,hls,List.append_assoc]
  · rw [List.map_append,hls',hms',List.filterMap_append]

theorem Extends.directive (server : ParsedServerBlock) (d : ParsedServerDirective) :
    Extends server { server with directives := server.directives ++ [d] } [.directive d.erased] :=
  ⟨⟨[d],rfl,rfl⟩,⟨[],(List.append_nil _).symm,rfl⟩⟩

theorem Extends.location (server : ParsedServerBlock) (b : ParsedLocationBlock) :
    Extends server { server with locations := server.locations ++ [b] } [.location b.erased] :=
  ⟨⟨[],(List.append_nil _).symm,rfl⟩,⟨[b],rfl,rfl⟩⟩

theorem name_ne_location (kind : ServerDirectiveKind) : kind.name ≠ ascii "location" := by
  cases kind <;> decide

theorem parseServerItem_stream {item : ServerItem} (server : ParsedServerBlock) (h : Stream p (item.symbols ++ symbols)) :
    ∃ server' p', p.parseServerItem server = .ok (server',p') ∧ Extends server server' [item] ∧ Stream p' symbols := by
  cases item with
  | directive d =>
    obtain ⟨value,p',hparse,hscalar,hrest⟩ := parseDirective_stream d.typed h
    obtain ⟨hkind,hname⟩ := h.next.1.word
    obtain ⟨directive,hdirective,hsame,hvalue⟩ := parseServerDirective_of hparse
    have herased : directive.erased = d := by
      obtain ⟨kind,scalar,typed⟩ := d
      simp only [ParsedServerDirective.erased,hsame,hvalue,hscalar]
    have hlocation : p.current.lexeme ≠ ascii "location" := by
      rw [hname]
      exact name_ne_location d.kind
    refine ⟨_,p',?_,herased ▸ Extends.directive server directive,hrest⟩
    simp only [parseServerItem,hkind,ne_eq,not_true_eq_false,if_false,if_neg hlocation,
      serverDirectiveKind_iff.mpr hname,hdirective]
  | location b =>
    have hword : Stream p (.word (ascii "location") :: (b.symbols ++ symbols).tail) := h
    obtain ⟨hkind,hname⟩ := hword.next.1.word
    obtain ⟨location,p',hparse,rfl,hrest⟩ := parseLocation_stream h
    refine ⟨_,p',?_,Extends.location server location,hrest⟩
    simp only [parseServerItem,hkind,ne_eq,not_true_eq_false,if_false,if_pos hname,hparse]

theorem stream_parseServerItem (hp : Fresh p) (h : p.parseServerItem server = .ok (server',p')) :
    Fresh p' ∧ ∃ item, Extends server server' [item] ∧
      ∀ symbols, Stream p' symbols → Stream p (item.symbols ++ symbols) := by
  obtain ⟨hidentifier,⟨location,hname,hparse,rfl⟩ | ⟨directive,-,hkind,hparse,rfl⟩⟩ := parseServerItem_ok h
  · exact ⟨parseLocation_fresh hparse,_,Extends.location server location,
      fun symbols hstream => stream_parseLocation hp hidentifier hname hparse hstream⟩
  · refine ⟨parseDirective_fresh hparse,_,Extends.directive server directive,fun symbols hstream => ?_⟩
    have hdirective := stream_parseDirective hp hidentifier hparse directive.typed hstream
    rwa [serverDirectiveKind_iff.mp hkind] at hdirective

theorem parseServerItems_stream (items : List ServerItem) (server : ParsedServerBlock)
    (h : Stream p (items.flatMap ServerItem.symbols ++ .rightBrace :: symbols)) :
    ∃ server' p', p.parseServerItems server = .ok (server',p') ∧ Extends server server' items ∧
      Stream p' (.rightBrace :: symbols) := by
  induction items generalizing p server with
  | nil => exact ⟨server,p,parseServerItems_stop h.1.kind,Extends.refl server,h⟩
  | cons item items ih =>
    rw [List.flatMap_cons,List.append_assoc] at h
    obtain ⟨server₁,p₁,hitem,hextends,hrest⟩ := parseServerItem_stream server h
    obtain ⟨server',p',hitems,hmore,hend⟩ := ih server₁ hrest
    exact ⟨server',p',(parseServerItems_step hitem).trans hitems,hextends.trans hmore,hend⟩

theorem stream_parseServerItems (hp : Fresh p) (h : p.parseServerItems server = .ok (server',p')) :
    Fresh p' ∧ ∃ items, Extends server server' items ∧
      ∀ symbols, Stream p' symbols → Stream p (items.flatMap ServerItem.symbols ++ symbols) := by
  fun_induction parseServerItems p server with
  | case1 =>
    cases h
    exact ⟨hp,[],Extends.refl _,fun _ hstream => hstream⟩
  | case2 => cases h
  | case3 p server _ server₁ p₁ hitem ih =>
    obtain ⟨hfresh₁,item,hextends,hstep⟩ := stream_parseServerItem hp hitem
    obtain ⟨hfresh,items,hmore,hrest⟩ := ih hfresh₁ h
    refine ⟨hfresh,item :: items,hextends.trans hmore,fun symbols hstream => ?_⟩
    rw [List.flatMap_cons,List.append_assoc]
    exact hstep _ (hrest symbols hstream)

end Server

section Whole
variable {lexer : ConfigLexer} {items : List ServerItem} {configuration : ParsedConfiguration}

theorem parse_written (herror : lexer.terminalError = none)
    (h : Written none (configurationSymbols items) lexer.cursor.rest) :
    ∃ configuration, parse lexer = .ok configuration ∧ configuration.Holds items := by
  obtain ⟨p,hfirst,h⟩ := advance_written herror h
  simp only [configurationSymbols,List.cons_append,List.nil_append] at h
  obtain ⟨hserver,atBrace,hbrace,h⟩ := h.next
  obtain ⟨hopen,atItems,hitems,h⟩ := h.next
  obtain ⟨server,atClose,hloop,hextends,h⟩ := parseServerItems_stream items ⟨p.current.location,{},[],[]⟩ h
  obtain ⟨hclose,atEnd,hlast,hend⟩ := h.next
  have hconsume : atBrace.consume .leftBrace .leftBrace = .ok atItems := by
    simp only [consume,hopen.kind,Symbol.kind,ne_eq,not_true_eq_false,if_false,hitems]
  obtain ⟨hkind,hname⟩ := hserver.word
  obtain ⟨⟨ds,hds,hds'⟩,⟨ls,hls,hls'⟩⟩ := hextends
  rw [List.nil_append] at hds hls
  refine ⟨⟨{ server with closingBraceLocation := atClose.current.location },atEnd.current.location⟩,?_,?_,?_⟩
  · have hend : atEnd.current.kind = .endOfInput := hend
    simp only [parse,hfirst,isIdentifier,hkind,hname,hbrace,hconsume,hloop,hclose.kind,Symbol.kind,hlast,hend,
      decide_true,Bool.and_self,Bool.not_true,Bool.false_eq_true,ne_eq,not_true_eq_false,if_false]
  · rw [← hds',← hds]
  · rw [← hls',← hls]

theorem written_parse (h : parse lexer = .ok configuration) :
    ∃ items, Written none (configurationSymbols items) lexer.cursor.rest ∧ configuration.Holds items := by
  obtain ⟨p,atBrace,atItems,server,atClose,atEnd,hfirst,hkind,hname,hbrace,hopen,hitems,hloop,hclose,hlast,hend,
    hdirectives,hlocations⟩ := parse_ok h
  obtain ⟨hfresh,items,⟨⟨ds,hds,hds'⟩,⟨ls,hls,hls'⟩⟩,hrest⟩ := stream_parseServerItems ⟨_,hitems⟩ hloop
  rw [List.nil_append] at hds hls
  have hnothing : Stream atEnd [] := hend
  have hbody := hrest _ (Stream.cons hfresh (hfresh.mark (Or.inr (Or.inl rfl)) hclose) hlast hnothing)
  have hblock := Stream.cons ⟨_,hbrace⟩ (Fresh.mark ⟨_,hbrace⟩ (Or.inl rfl) hopen) hitems hbody
  have hword := Stream.cons ⟨_,hfirst⟩ (Fresh.word ⟨_,hfirst⟩ hkind) hbrace hblock
  rw [hname] at hword
  refine ⟨items,written_advance hfirst (by simp) ?_,?_,?_⟩
  · simp only [configurationSymbols,List.cons_append,List.nil_append]
    exact hword
  · rw [hdirectives,hds,hds']
  · rw [hlocations,hls,hls']

end Whole

section Renderings
variable {raw value text : Bytes} {symbols : List Symbol} {previous : Option Symbol} {items : List ServerItem}

theorem escapedCharacter_cases {b x : Byte} (h : escapedCharacter b = some x) :
    ∃ v : Scalar, encode v = [x] ∧ v.val ≠ 0 ∧ v.val ≠ 0xFEFF := by
  have hall : ∀ b, (escapedCharacter b).all (fun x => decide (x < 0x80) && x != 0) = true :=
    forall_byte (by decide +kernel)
  have hx := hall b
  rw [h,Option.all_some,Bool.and_eq_true,decide_eq_true_eq,bne_iff_ne] at hx
  obtain ⟨hascii,hzero⟩ := hx
  have hlt : x.toNat < 0x80 := hascii
  have hscalar : isScalarValue x.toNat = true := by
    simp only [isScalarValue,Bool.and_eq_true,Bool.or_eq_true,decide_eq_true_eq]
    omega
  refine ⟨⟨x.toNat,hscalar⟩,?_,?_,?_⟩
  · rw [encode_of_ascii hlt,UInt8.ofNat_toNat]
  · intro hx
    exact hzero (UInt8.toNat_inj.mp hx)
  · intro hx
    have hx : x.toNat = 0xFEFF := hx
    omega

theorem Spells.writable (h : Spells raw value) : WritableText value := by
  induction h with
  | nil => exact ⟨[],rfl,by simp⟩
  | scalar hx _ ih =>
    obtain ⟨v,rfl,-,-,hzero,-,-,hmark⟩ := plainScalar_iff.mp hx
    obtain ⟨scalars,rfl,hall⟩ := ih
    refine ⟨v :: scalars,(encodeAll_cons v scalars).symm,?_⟩
    intro u hu
    rcases List.mem_cons.mp hu with rfl | hu
    · exact ⟨hzero,hmark⟩
    · exact hall u hu
  | escape hb _ ih =>
    obtain ⟨v,hv,hplain⟩ := escapedCharacter_cases hb
    obtain ⟨scalars,rfl,hall⟩ := ih
    refine ⟨v :: scalars,?_,?_⟩
    · rw [encodeAll_cons,hv]
      rfl
    · intro u hu
      rcases List.mem_cons.mp hu with rfl | hu
      · exact hplain
      · exact hall u hu

/-- Every scalar but NUL and U+FEFF is written raw or by an escape. -/
theorem spells_scalar {v : Scalar} (hzero : v.val ≠ 0) (hmark : v.val ≠ 0xFEFF) (h : Spells raw value) :
    ∃ raw', Spells raw' (encode v ++ value) := by
  have hencode {n : ℕ} (hn : n < 0x80) (hv : v.val = n) : encode v = [UInt8.ofNat n] := by
    rw [encode_of_ascii (hv ▸ hn),hv]
  by_cases hcr : v.val = 0x0D
  · rw [hencode (by decide) hcr]
    exact ⟨_,.escape (b := char 'r') (by decide) h⟩
  · by_cases hlf : v.val = 0x0A
    · rw [hencode (by decide) hlf]
      exact ⟨_,.escape (b := char 'n') (by decide) h⟩
    · by_cases hquote : v.val = 0x22
      · rw [hencode (by decide) hquote]
        exact ⟨_,.escape (b := char '"') (by decide) h⟩
      · by_cases hbackslash : v.val = 0x5C
        · rw [hencode (by decide) hbackslash]
          exact ⟨_,.escape (b := char '\\') (by decide) h⟩
        · exact ⟨_,.scalar (plainScalar_iff.mpr ⟨v,rfl,hcr,hlf,hzero,hquote,hbackslash,hmark⟩) h⟩

theorem WritableText.spells (h : WritableText value) : ∃ raw, Spells raw value := by
  obtain ⟨scalars,rfl,hall⟩ := h
  induction scalars with
  | nil => exact ⟨[],.nil⟩
  | cons v scalars ih =>
    obtain ⟨raw,hraw⟩ := ih (fun u hu => hall u (List.mem_cons_of_mem _ hu))
    obtain ⟨hzero,hmark⟩ := hall v List.mem_cons_self
    rw [encodeAll_cons]
    exact spells_scalar hzero hmark hraw

theorem Written.prints (h : Written previous symbols text) : ∀ s ∈ symbols, ∃ x, Prints s x := by
  induction h with
  | finish => simp
  | symbol _ hx _ _ ih =>
    intro s hs
    rcases List.mem_cons.mp hs with rfl | hs
    · exact ⟨_,hx⟩
    · exact ih s hs

/-- Symbols that can be written can be written with a space before each. -/
theorem written_of_prints (h : ∀ s ∈ symbols, ∃ x, Prints s x) (previous : Option Symbol) :
    ∃ text, Written previous symbols text := by
  induction symbols generalizing previous with
  | nil => exact ⟨[],.finish .nil⟩
  | cons s symbols ih =>
    obtain ⟨x,hx⟩ := h s List.mem_cons_self
    obtain ⟨rest,hrest⟩ := ih (fun s hs => h s (List.mem_cons_of_mem _ hs)) (some s)
    exact ⟨_,.symbol (w := [char ' ']) (.space (Or.inl rfl) .nil) hx (fun _ _ _ => by simp) hrest⟩

theorem prints_word {name : Bytes} (h : ∃ b x, name = b :: x ∧ isIdentifierStart b = true ∧
    x.all isIdentifierContinuation = true ∧ name ≠ ascii "true" ∧ name ≠ ascii "false") :
    Prints (.word name) name := by
  obtain ⟨b,x,rfl,hb,hx,hkeyword⟩ := h
  exact .word (.word hb hx hkeyword)

theorem prints_serverName (kind : ServerDirectiveKind) : Prints (.word kind.name) kind.name := by
  apply prints_word
  cases kind <;> exact ⟨_,_,rfl,by decide,by decide,by decide,by decide⟩

theorem prints_locationName (kind : LocationDirectiveKind) : Prints (.word kind.name) kind.name := by
  apply prints_word
  cases kind <;> exact ⟨_,_,rfl,by decide,by decide,by decide,by decide⟩

theorem prints_scalar_iff {scalar : ParsedConfigScalar} : (∃ x, Prints scalar.symbol x) ↔ scalar.Writable := by
  cases scalar with
  | string value =>
    constructor
    · rintro ⟨x,hx⟩
      cases hx with
      | string h => exact h.writable
    · intro h
      obtain ⟨raw,hraw⟩ := WritableText.spells h
      exact ⟨_,.string hraw⟩
  | integer value =>
    refine ⟨fun _ => trivial,fun _ => ⟨toDecimal value.toNat,.integer (toDecimal_ne_nil _) ?_ (numeral_toDecimal _)⟩⟩
    rw [decimal_digits]
    exact toDecimal_digits _
  | boolean value => exact ⟨fun _ => trivial,fun _ => ⟨_,.boolean⟩⟩

theorem prints_directive_iff {name : Bytes} {scalar : ParsedConfigScalar} (hname : Prints (.word name) name) :
    (∀ s ∈ [Symbol.word name,scalar.symbol,.semicolon], ∃ x, Prints s x) ↔ scalar.Writable := by
  rw [← prints_scalar_iff]
  simp only [List.forall_mem_cons,List.not_mem_nil,false_implies,implies_true,and_true]
  exact ⟨fun h => h.2.1,fun h => ⟨⟨_,hname⟩,h,_,.semicolon⟩⟩

theorem prints_item_iff {item : ServerItem} : (∀ s ∈ item.symbols, ∃ x, Prints s x) ↔ item.Writable := by
  cases item with
  | directive d => exact prints_directive_iff (prints_serverName d.kind)
  | location b =>
    have hpath := @prints_scalar_iff (.string b.apiPath)
    have hword : Prints (.word (ascii "location")) (ascii "location") :=
      prints_word ⟨_,_,rfl,by decide,by decide,by decide,by decide⟩
    simp only [ServerItem.symbols,LocationBlock.symbols,ServerItem.Writable,List.forall_mem_append,
      List.forall_mem_cons,List.not_mem_nil,false_implies,implies_true,and_true,List.mem_flatMap,forall_exists_index,
      and_imp]
    constructor
    · rintro ⟨⟨⟨-,hstring,-⟩,hdirectives⟩,-⟩
      exact ⟨hpath.mp hstring,fun d hd => (prints_directive_iff (prints_locationName d.kind)).mp
        (fun s hs => hdirectives s d hd hs)⟩
    · rintro ⟨hstring,hdirectives⟩
      exact ⟨⟨⟨⟨_,hword⟩,hpath.mpr hstring,_,.leftBrace⟩,fun s d hd hs =>
        (prints_directive_iff (prints_locationName d.kind)).mpr (hdirectives d hd) s hs⟩,_,.rightBrace⟩

theorem renders_iff_writable : (∃ text, Renders items text) ↔ ∀ item ∈ items, item.Writable := by
  have hword : Prints (.word (ascii "server")) (ascii "server") :=
    prints_word ⟨_,_,rfl,by decide,by decide,by decide,by decide⟩
  simp only [← prints_item_iff]
  constructor
  · rintro ⟨text,mark,body,-,-,hwritten⟩ item hitem s hs
    apply hwritten.prints s
    simp only [configurationSymbols,List.mem_append,List.mem_flatMap]
    exact Or.inl (Or.inr ⟨item,hitem,hs⟩)
  · intro h
    obtain ⟨text,htext⟩ := @written_of_prints (configurationSymbols items) (by
      simp only [configurationSymbols,List.forall_mem_append,List.forall_mem_cons,List.not_mem_nil,false_implies,
        implies_true,and_true,List.mem_flatMap,forall_exists_index,and_imp]
      exact ⟨⟨⟨⟨_,hword⟩,_,.leftBrace⟩,fun s item hitem hs => h item hitem s hs⟩,_,.rightBrace⟩) none
    exact ⟨text,[],text,Or.inl rfl,rfl,htext⟩

theorem Written.no_mark (h : Written previous symbols text) : hasByteOrderMark text = false := by
  have hascii : ∀ b ∈ text.head?, b < 0x80 := by
    cases h with
    | finish hw => exact hw.first_ascii
    | @symbol _ s symbols w x rest hw hx hsep h =>
      obtain ⟨decoded,hlexeme,-⟩ := hx.lexeme
      cases w with
      | nil =>
        rw [List.nil_append,List.head?_append_of_ne_nil _ hlexeme.ne_nil]
        exact hlexeme.first_ascii
      | cons b w => exact hw.first_ascii
  cases hmark : hasByteOrderMark text with
  | false => rfl
  | true =>
    obtain ⟨t,rfl⟩ := hasByteOrderMark_split hmark
    exact absurd (hascii 0xEF rfl) (by decide)

theorem create_mark {mark body : Bytes} (hmark : mark = [] ∨ mark = utf8ByteOrderMark)
    (hbody : hasByteOrderMark body = false) (hsize : (mark ++ body).length ≤ maxInputSizeBytes) :
    ConfigLexer.create (mark ++ body) = .ok { cursor := ⟨body,⟨mark.length,1,1⟩⟩ } := by
  unfold ConfigLexer.create
  rw [if_neg (not_lt.mpr hsize)]
  rcases hmark with rfl | rfl
  · rw [List.nil_append,hbody]
    rfl
  · have hbegins : hasByteOrderMark (utf8ByteOrderMark ++ body) = true := by
      rw [hasByteOrderMark,List.isPrefixOf_iff_prefix]
      exact List.prefix_append _ _
    rw [if_pos hbegins]
    rfl

end Renderings

/-- The accepted texts are the renderings within the size limit, and each is parsed to the configuration that it
renders. -/
theorem configuration_round_trip :
    (∀ items text, Renders items text → text.length ≤ maxInputSizeBytes →
      ∃ lexer configuration, ConfigLexer.create text = .ok lexer ∧ parse lexer = .ok configuration ∧
        configuration.Holds items) ∧
    (∀ text lexer configuration, ConfigLexer.create text = .ok lexer → parse lexer = .ok configuration →
      text.length ≤ maxInputSizeBytes ∧ ∃ items, Renders items text ∧ configuration.Holds items) ∧
    ∀ items, (∃ text, Renders items text) ↔ ∀ item ∈ items, item.Writable := by
  refine ⟨?_,?_,fun items => renders_iff_writable⟩
  · rintro items text ⟨mark,body,hmark,rfl,hwritten⟩ hsize
    obtain ⟨configuration,hparse,hholds⟩ := @parse_written { cursor := ⟨body,⟨mark.length,1,1⟩⟩ } items rfl hwritten
    exact ⟨_,configuration,create_mark hmark hwritten.no_mark hsize,hparse,hholds⟩
  · intro text lexer configuration hcreate hparse
    rcases create_cases text with ⟨-,herror⟩ | ⟨hsize,mark,body,rfl,hmark,hok⟩
    · rw [herror] at hcreate
      cases hcreate
    · rw [hok] at hcreate
      obtain rfl := Except.ok.inj hcreate
      obtain ⟨items,hwritten,hholds⟩ := written_parse hparse
      refine ⟨hsize,items,⟨mark,body,?_,rfl,hwritten⟩,hholds⟩
      rcases hmark with ⟨rfl,-⟩ | ⟨rfl,-⟩
      · exact Or.inr rfl
      · exact Or.inl rfl

/-- The rendering of a port with a leading zero, a comment at the end and no trivia where none is needed. -/
theorem configuration_round_trip_port : ∃ lexer configuration,
    ConfigLexer.create (ascii "server\x7bport 080;\x7d#") = .ok lexer ∧ parse lexer = .ok configuration ∧
      configuration.Holds [.directive ⟨.port,.integer 80,rfl⟩] := by
  have write {previous : Option Symbol} {s : Symbol} {symbols : List Symbol} {w x rest text : Bytes}
      (htext : text = w ++ x ++ rest) (hw : Trivia false w) (hx : Prints s x)
      (hsep : ∀ q ∈ previous, q.runsInto s = true → w ≠ []) (h : Written (some s) symbols rest) :
      Written previous (s :: symbols) text := htext ▸ .symbol hw hx hsep h
  have hend : Written (some .rightBrace) [] (ascii "#") := .finish (.last .nil)
  have hclose : Written (some .semicolon) [.rightBrace] (ascii "\x7d#") :=
    write (w := []) (by decide) .nil .rightBrace (by simp [Symbol.runsInto]) hend
  have hsemicolon : Written (some (.integer 80)) [.semicolon,.rightBrace] (ascii ";\x7d#") :=
    write (w := []) (by decide) .nil .semicolon (by simp [Symbol.runsInto]) hclose
  have hinteger : Written (some (.word (ascii "port"))) [.integer 80,.semicolon,.rightBrace] (ascii " 080;\x7d#") :=
    write (w := [char ' ']) (x := ascii "080") (by decide) (.space (Or.inl rfl) .nil)
      (.integer (by decide) (by decide) (by decide)) (by simp) hsemicolon
  have hname : Written (some .leftBrace) [.word (ascii "port"),.integer 80,.semicolon,.rightBrace]
      (ascii "port 080;\x7d#") :=
    write (w := []) (by decide) .nil (prints_serverName .port) (by simp [Symbol.runsInto]) hinteger
  have hopen : Written (some (.word (ascii "server")))
      [.leftBrace,.word (ascii "port"),.integer 80,.semicolon,.rightBrace] (ascii "\x7bport 080;\x7d#") :=
    write (w := []) (by decide) .nil .leftBrace (by simp [Symbol.runsInto]) hname
  have hserver : Written none (configurationSymbols [.directive ⟨.port,.integer 80,rfl⟩])
      (ascii "server\x7bport 080;\x7d#") :=
    write (w := []) (by decide) .nil (prints_word ⟨_,_,rfl,by decide,by decide,by decide,by decide⟩) (by simp) hopen
  exact configuration_round_trip.1 _ _ ⟨[],_,Or.inl rfl,rfl,hserver⟩ (by decide)

end SpareNode.Configuration
