import SpareNode.Configuration.LocationAcceptance
import SpareNode.Configuration.ParserRoundTrip

/-! # The configuration loader

A file is read up to one byte more than the lexer takes, and its text goes through the lexer, the parser and the
validator. What comes out is what the text says: it renders the items of a valid configuration.
-/
namespace SpareNode.Configuration

/-- What opening and reading a file comes to. -/
inductive SourceFile where
  | unopened
  | unreadable
  | readable (contents : Bytes)

inductive ConfigFileErrorCode where
  | openFailed | readFailed
deriving DecidableEq, Repr

/-- `ConfigLoadFailure`. -/
inductive ConfigLoadFailure where
  | file (code : ConfigFileErrorCode)
  | lexer (error : ConfigLexerError)
  | parser (error : ConfigParserError)
  | validation (errors : List ConfigValidationError)

structure ConfigLoadError where
  sourcePath : Bytes
  failure : ConfigLoadFailure

structure LoadedConfiguration where
  sourcePath : Bytes
  configuration : ValidatedConfiguration

def readConfigSource : SourceFile → Except ConfigFileErrorCode Bytes
  | .unopened => .error .openFailed
  | .unreadable => .error .readFailed
  | .readable contents => .ok (contents.take (maxInputSizeBytes + 1))

/-- `ConfigLoader::load`; an error of the lexer is taken out of the parser's. -/
def load (file : SourceFile) (sourcePath : Bytes) : Except ConfigLoadError LoadedConfiguration :=
  match readConfigSource file with
  | .error code => .error ⟨sourcePath,.file code⟩
  | .ok source =>
    match ConfigLexer.create source with
    | .error error => .error ⟨sourcePath,.lexer error⟩
    | .ok lexer =>
      match ParserState.parse lexer with
      | .error error =>
        match error.lexerError with
        | some lexerError => .error ⟨sourcePath,.lexer lexerError⟩
        | none => .error ⟨sourcePath,.parser error⟩
      | .ok parsed =>
        match validate parsed with
        | .error errors => .error ⟨sourcePath,.validation errors⟩
        | .ok configuration => .ok ⟨sourcePath,configuration⟩

/-- The file holds a rendering of the items, small enough for the lexer. -/
def Holds (file : SourceFile) (items : List ServerItem) : Prop :=
  ∃ text, file = .readable text ∧ text.length ≤ maxInputSizeBytes ∧ Renders items text

/-- Items that make up a valid configuration, wherever they stand in a text. -/
def ValidItems (items : List ServerItem) : Prop :=
  ∃ configuration : ParsedConfiguration, configuration.Holds items ∧ ValidConfiguration configuration

/-- A loaded configuration is that of the items, with the settings that they reflect. -/
structure Loaded (items : List ServerItem) (loaded : LoadedConfiguration) (settings : ServerSettings) : Prop where
  holds : loaded.configuration.parsed.Holds items
  valid : ValidConfiguration loaded.configuration.parsed
  servers : loaded.configuration.settings.servers = [settings]
  reflects : Reflects loaded.configuration.parsed.server settings

variable {file : SourceFile} {sourcePath : Bytes} {items : List ServerItem} {loaded : LoadedConfiguration}

/-- A text that is cut is too long, and one that is not too long is not cut. -/
theorem take_input {text : Bytes} (h : (text.take (maxInputSizeBytes + 1)).length ≤ maxInputSizeBytes) :
    text.length ≤ maxInputSizeBytes ∧ text.take (maxInputSizeBytes + 1) = text := by
  rw [List.length_take] at h
  exact ⟨by omega,List.take_of_length_le (by omega)⟩

theorem validate_ok {parsed : ParsedConfiguration} {configuration : ValidatedConfiguration}
    (h : validate parsed = .ok configuration) : ∃ settings, configuration = ⟨parsed,⟨[settings]⟩⟩ ∧
      ValidConfiguration parsed ∧ Reflects parsed.server settings := by
  have hvalid := (validate_accepts parsed).mp ⟨configuration,h⟩
  rw [validate] at h
  split at h
  · exact ⟨_,(Except.ok.inj h).symm,hvalid,validated_reflects hvalid⟩
  · cases h

theorem load_ok (h : load file sourcePath = .ok loaded) :
    loaded.sourcePath = sourcePath ∧ ∃ items settings, Holds file items ∧ Loaded items loaded settings := by
  unfold load at h
  split at h
  · cases h
  · rename_i source hsource
    split at h
    · cases h
    · rename_i lexer hlexer
      split at h
      · split at h <;> cases h
      · rename_i parsed hparsed
        split at h
        · cases h
        · rename_i configuration hvalidated
          obtain rfl := Except.ok.inj h
          obtain ⟨settings,rfl,hvalid,hreflects⟩ := validate_ok hvalidated
          obtain ⟨text,rfl,rfl⟩ : ∃ text, file = .readable text ∧ text.take (maxInputSizeBytes + 1) = source := by
            cases file with
            | unopened => cases hsource
            | unreadable => cases hsource
            | readable text => exact ⟨text,rfl,Except.ok.inj hsource⟩
          rcases create_cases (text.take (maxInputSizeBytes + 1)) with
            ⟨-,herror⟩ | ⟨hsize,mark,body,htext,hmark,hok⟩
          · rw [herror] at hlexer
            cases hlexer
          · obtain ⟨hlength,hwhole⟩ := take_input hsize
            rw [hok] at hlexer
            obtain rfl := Except.ok.inj hlexer
            obtain ⟨items,hwritten,hholds⟩ := written_parse hparsed
            refine ⟨rfl,items,settings,⟨text,rfl,hlength,mark,body,?_,?_,hwritten⟩,hholds,hvalid,rfl,hreflects⟩
            · rcases hmark with ⟨rfl,-⟩ | ⟨rfl,-⟩
              · exact Or.inr rfl
              · exact Or.inl rfl
            · rw [← htext,hwhole]

theorem load_error {error : ConfigLoadError} (h : load file sourcePath = .error error) :
    error.sourcePath = sourcePath := by
  unfold load at h
  split at h
  · cases h
    rfl
  · split at h
    · cases h
      rfl
    · split at h
      · split at h <;> cases h <;> rfl
      · split at h <;> cases h
        rfl

theorem erased_given (location : ParsedLocationBlock) :
    scalars location.given = location.erased.directives.map fun d => (d.kind,d.scalar) := by
  simp [scalars,ParsedLocationBlock.given,ParsedLocationBlock.erased,ParsedLocationDirective.erased]

theorem erased_server_given (server : ParsedServerBlock) :
    scalars server.given = (server.directives.map ParsedServerDirective.erased).map fun d => (d.kind,d.scalar) := by
  simp [scalars,ParsedServerBlock.given,ParsedServerDirective.erased]

/-- Two configurations of the same items differ in their places only. -/
theorem reordered_of_holds {a b : ParsedConfiguration} (ha : a.Holds items) (hb : b.Holds items) : Reordered a b := by
  have hdirectives := ha.1.trans hb.1.symm
  have hlocations := ha.2.trans hb.2.symm
  constructor
  · rw [erased_server_given,erased_server_given,hdirectives]
  · refine ⟨_,.refl _,?_⟩
    generalize a.server.locations = as at hlocations
    generalize b.server.locations = bs at hlocations
    induction as generalizing bs with
    | nil =>
      cases bs with
      | nil => exact .nil
      | cons => cases hlocations
    | cons x as ih =>
      cases bs with
      | nil => cases hlocations
      | cons y bs =>
        obtain ⟨hfirst,hrest⟩ := List.cons.inj hlocations
        refine .cons ⟨congrArg LocationBlock.apiPath hfirst,?_⟩ (ih bs hrest)
        rw [erased_given,erased_given,hfirst]

theorem load_accepts (hfile : Holds file items) (hvalid : ValidItems items) (sourcePath : Bytes) :
    ∃ loaded settings, load file sourcePath = .ok loaded ∧ Loaded items loaded settings := by
  obtain ⟨text,rfl,hlength,mark,body,hmark,rfl,hwritten⟩ := hfile
  obtain ⟨configuration,hconfiguration,hvalid⟩ := hvalid
  have hread : readConfigSource (.readable (mark ++ body)) = .ok (mark ++ body) :=
    congrArg _ (List.take_of_length_le (by omega))
  have hcreate := create_mark hmark hwritten.no_mark hlength
  obtain ⟨parsed,hparsed,hholds⟩ := @parse_written { cursor := ⟨body,⟨mark.length,1,1⟩⟩ } items rfl hwritten
  obtain ⟨validated,hvalidated⟩ := (validate_accepts parsed).mpr
    (hvalid.reordered (reordered_of_holds hconfiguration hholds))
  obtain ⟨settings,rfl,hvalid',hreflects⟩ := validate_ok hvalidated
  refine ⟨⟨sourcePath,⟨parsed,⟨[settings]⟩⟩⟩,settings,?_,⟨hholds,hvalid',rfl,hreflects⟩⟩
  simp only [load,hread,hcreate,hparsed,hvalidated]

/-- A file is accepted when it holds a valid configuration, and otherwise not. -/
theorem load_accepts_iff : (∃ loaded, load file sourcePath = .ok loaded) ↔
    ∃ items, Holds file items ∧ ValidItems items := by
  constructor
  · rintro ⟨loaded,h⟩
    obtain ⟨-,items,settings,hfile,hloaded⟩ := load_ok h
    exact ⟨items,hfile,_,hloaded.holds,hloaded.valid⟩
  · rintro ⟨items,hfile,hvalid⟩
    obtain ⟨loaded,-,hload,-⟩ := load_accepts hfile hvalid sourcePath
    exact ⟨loaded,hload⟩

end SpareNode.Configuration
