import SpareNode.Logging.Logger

/-! # Console output

A console sink writes a record as its formatted line, with the severity in colour when colours are enabled. A line can be
read back: no text of a record is taken for another part of it, or for a colour.
-/
namespace SpareNode.Logging
open Text Utf8

def escape : Byte := 0x1B
def closing : Byte := char ']'

def ansiReset : Bytes := escape :: ascii "[0m"

def severityColor : LogSeverity → Bytes
  | .debug => escape :: ascii "[36m"
  | .info => escape :: ascii "[32m"
  | .warning => escape :: ascii "[33m"
  | .error => escape :: ascii "[31m"

def diagnosticLabel : LogSeverity → Bytes
  | .debug => ascii "debug:"
  | .info => ascii "info:"
  | .warning => ascii "warning:"
  | .error => ascii "error:"

/-- `std::string::find` of a text. -/
def findText (needle : Bytes) : Bytes → Option ℕ
  | [] => if needle = [] then some 0 else none
  | b :: s => if needle.isPrefixOf (b :: s) then some 0 else (findText needle s).map (· + 1)

/-- `std::string::insert`. -/
def insertAt (position : ℕ) (text s : Bytes) : Bytes := s.take position ++ text ++ s.drop position

def colorizeSeverity (formattedRecord : Bytes) (severity : LogSeverity) : Bytes :=
  let marker := ascii "[" ++ severity.text ++ ascii "]"
  match findText marker formattedRecord with
  | none => formattedRecord
  | some markerPosition =>
    insertAt markerPosition (severityColor severity)
      (insertAt (markerPosition + marker.length) ansiReset formattedRecord)

theorem findText_le {needle : Bytes} : ∀ {s : Bytes} {position : ℕ}, findText needle s = some position →
    position + needle.length ≤ s.length := by
  intro s
  induction s with
  | nil =>
    intro position h
    unfold findText at h
    split at h
    · rename_i hnil
      obtain rfl := Option.some.inj h
      simp [hnil]
    · cases h
  | cons b s ih =>
    intro position h
    unfold findText at h
    split at h
    · rename_i hprefix
      obtain rfl := Option.some.inj h
      simpa using (List.isPrefixOf_iff_prefix.mp hprefix).length_le
    · obtain ⟨p,hp,rfl⟩ := Option.map_eq_some_iff.mp h
      have := ih hp
      rw [List.length_cons]
      omega

theorem insertAt_length {position : ℕ} {text s : Bytes} :
    (insertAt position text s).length = s.length + text.length := by
  simp only [insertAt,List.length_append,List.length_take,List.length_drop]
  omega

theorem diagnosticLabel_pos (severity : LogSeverity) : 0 < (diagnosticLabel severity).length := by
  cases severity <;> decide

def colorizeDiagnosticLoop (severity : LogSeverity) (diagnostic : Bytes) (searchPosition : ℕ) : Bytes :=
  match _hfound : findText (diagnosticLabel severity) (diagnostic.drop searchPosition) with
  | none => diagnostic
  | some found =>
    let position := searchPosition + found
    colorizeDiagnosticLoop severity
      (insertAt position (severityColor severity)
        (insertAt (position + (diagnosticLabel severity).length) ansiReset diagnostic))
      (position + ((severityColor severity).length + (diagnosticLabel severity).length + ansiReset.length))
termination_by diagnostic.length - searchPosition
decreasing_by
  have hle := findText_le _hfound
  have hpos := diagnosticLabel_pos severity
  rw [List.length_drop] at hle
  rw [insertAt_length,insertAt_length]
  omega

def colorizeDiagnostic (diagnostic : Bytes) (severity : LogSeverity) : Bytes :=
  colorizeDiagnosticLoop severity diagnostic 0

inductive ConsoleColorMode where
  | automatic | enabled | disabled
deriving DecidableEq, Repr

def resolveConsoleColorMode (mode : ConsoleColorMode) (terminal : Bool) : Bool :=
  match mode with
  | .automatic => terminal
  | .enabled => true
  | .disabled => false

def writeConsoleDiagnostic (diagnostic : Bytes) (severity : LogSeverity) (mode : ConsoleColorMode) (terminal : Bool) :
    Bytes :=
  if resolveConsoleColorMode mode terminal then colorizeDiagnostic diagnostic severity else diagnostic

/-- The line that `ConsoleLogSink::write` puts out in front of its newline. -/
def consoleLine (toUtc : ℤ → Option Utc) (colorsEnabled : Bool) (record : LogRecord) : Option Bytes :=
  (formatLogRecord toUtc record).map fun formattedRecord =>
    if colorsEnabled then colorizeSeverity formattedRecord record.severity else formattedRecord

/-- A text without its colours: an escape goes with everything up to the next `m`. -/
def uncolored (inside : Bool) : Bytes → Bytes
  | [] => []
  | b :: s =>
    if inside then uncolored (b ≠ char 'm') s
    else if b = escape then uncolored true s
    else b :: uncolored false s

theorem uncolored_append {s : Bytes} (h : escape ∉ s) (t : Bytes) : uncolored false (s ++ t) = s ++ uncolored false t := by
  induction s with
  | nil => rfl
  | cons b s ih =>
    obtain ⟨hb,hs⟩ := not_or.mp (mt List.mem_cons.mpr h)
    rw [List.cons_append,uncolored,if_neg Bool.false_ne_true,if_neg (Ne.symm hb),ih hs,List.cons_append]

theorem uncolored_of_plain {s : Bytes} (h : escape ∉ s) : uncolored false s = s := by
  have happend := uncolored_append h []
  rwa [List.append_nil,uncolored,List.append_nil] at happend

theorem uncolored_color (severity : LogSeverity) (t : Bytes) :
    uncolored false (severityColor severity ++ t) = uncolored false t := by
  cases severity <;> rfl

theorem uncolored_reset (t : Bytes) : uncolored false (ansiReset ++ t) = uncolored false t := rfl

theorem insertAt_split {a b text : Bytes} : insertAt a.length text (a ++ b) = a ++ text ++ b := by
  rw [insertAt,List.take_left,List.drop_left]

/-- A text that stands in another is put between a colour and its reset. -/
theorem insertAt_colors {before middle after color : Bytes} :
    insertAt before.length color (insertAt (before.length + middle.length) ansiReset (before ++ middle ++ after)) =
      before ++ color ++ middle ++ ansiReset ++ after := by
  have hreset : insertAt (before.length + middle.length) ansiReset (before ++ middle ++ after) =
      before ++ (middle ++ ansiReset ++ after) := by
    rw [← List.length_append,insertAt_split]
    simp only [List.append_assoc]
  rw [hreset,insertAt_split]
  simp only [List.append_assoc]

theorem findText_split {needle : Bytes} : ∀ {s : Bytes} {position : ℕ}, findText needle s = some position →
    ∃ before after, s = before ++ needle ++ after ∧ before.length = position := by
  intro s
  induction s with
  | nil =>
    intro position h
    unfold findText at h
    split at h
    · rename_i hnil
      obtain rfl := Option.some.inj h
      exact ⟨[],[],by simp [hnil],rfl⟩
    · cases h
  | cons b s ih =>
    intro position h
    unfold findText at h
    split at h
    · rename_i hprefix
      obtain rfl := Option.some.inj h
      obtain ⟨after,hafter⟩ := List.isPrefixOf_iff_prefix.mp hprefix
      exact ⟨[],after,hafter.symm,rfl⟩
    · obtain ⟨p,hp,rfl⟩ := Option.map_eq_some_iff.mp h
      obtain ⟨before,after,rfl,rfl⟩ := ih hp
      exact ⟨b :: before,after,rfl,rfl⟩

theorem colorizeSeverity_cases (formattedRecord : Bytes) (severity : LogSeverity) :
    colorizeSeverity formattedRecord severity = formattedRecord ∨
    ∃ before middle after, formattedRecord = before ++ middle ++ after ∧
      colorizeSeverity formattedRecord severity =
        before ++ severityColor severity ++ middle ++ ansiReset ++ after := by
  unfold colorizeSeverity
  dsimp only
  split
  · exact Or.inl rfl
  · rename_i position hfound
    obtain ⟨before,after,hsplit,rfl⟩ := findText_split hfound
    refine Or.inr ⟨before,_,after,hsplit,?_⟩
    rw [hsplit]
    exact insertAt_colors

/-- The colours of a severity can be taken away again. -/
theorem uncolored_colorizeSeverity {formattedRecord : Bytes} (h : escape ∉ formattedRecord) (severity : LogSeverity) :
    uncolored false (colorizeSeverity formattedRecord severity) = formattedRecord := by
  rcases colorizeSeverity_cases formattedRecord severity with hsame | ⟨before,middle,after,rfl,hcolored⟩
  · rw [hsame]
    exact uncolored_of_plain h
  · simp only [List.mem_append,not_or] at h
    rw [hcolored]
    simp only [List.append_assoc]
    rw [uncolored_append h.1.1,uncolored_color,uncolored_append h.1.2,uncolored_reset,uncolored_of_plain h.2]

/-- The colours of a diagnostic can be taken away again, as far as it has been searched. -/
theorem uncolored_colorizeDiagnosticLoop (severity : LogSeverity) (diagnostic : Bytes) (searchPosition : ℕ)
    (done rest : Bytes) (hsplit : diagnostic = done ++ rest) (hdone : done.length = searchPosition)
    (hplain : escape ∉ rest) (hclosed : ∀ t, uncolored false (done ++ t) = uncolored false done ++ uncolored false t) :
    uncolored false (colorizeDiagnosticLoop severity diagnostic searchPosition) = uncolored false done ++ rest := by
  induction hn : rest.length using Nat.strong_induction_on generalizing diagnostic searchPosition done rest with
  | _ n ih =>
    rw [colorizeDiagnosticLoop]
    split
    · rw [hsplit,hclosed,uncolored_of_plain hplain]
    · rename_i found hfound
      dsimp only
      rw [hsplit,← hdone,List.drop_left] at hfound
      obtain ⟨before,after,hrest,rfl⟩ := findText_split hfound
      rw [hrest] at hplain
      simp only [List.mem_append,not_or] at hplain
      have hposition : searchPosition + before.length = (done ++ before).length := by
        rw [List.length_append,hdone]
      have hcolored : insertAt (searchPosition + before.length) (severityColor severity)
          (insertAt (searchPosition + before.length + (diagnosticLabel severity).length) ansiReset diagnostic) =
          (done ++ before ++ severityColor severity ++ diagnosticLabel severity ++ ansiReset) ++ after := by
        rw [hposition,hsplit,hrest]
        have htext : done ++ (before ++ diagnosticLabel severity ++ after) =
            done ++ before ++ diagnosticLabel severity ++ after := by simp only [List.append_assoc]
        rw [htext,insertAt_colors]
      have hmore (t : Bytes) :
          uncolored false (done ++ before ++ severityColor severity ++ diagnosticLabel severity ++ ansiReset ++ t) =
            uncolored false done ++ (before ++ (diagnosticLabel severity ++ uncolored false t)) := by
        simp only [List.append_assoc]
        rw [hclosed,uncolored_append hplain.1.1,uncolored_color,uncolored_append hplain.1.2,uncolored_reset]
      have hend := hmore []
      rw [List.append_nil,uncolored,List.append_nil] at hend
      rw [hcolored]
      have hstep := ih after.length (by
          have hpos := diagnosticLabel_pos severity
          rw [← hn,hrest,List.length_append,List.length_append]
          omega) _ _ _ after rfl rfl hplain.2 (fun t => by
          rw [hmore,hend]
          simp only [List.append_assoc]) rfl
      have hnext : searchPosition + before.length + ((severityColor severity).length +
          (diagnosticLabel severity).length + ansiReset.length) =
          (done ++ before ++ severityColor severity ++ diagnosticLabel severity ++ ansiReset).length := by
        simp only [List.length_append]
        omega
      rw [hnext,hstep,hend,hrest]
      simp only [List.append_assoc]

theorem uncolored_colorizeDiagnostic {diagnostic : Bytes} (h : escape ∉ diagnostic) (severity : LogSeverity) :
    uncolored false (colorizeDiagnostic diagnostic severity) = diagnostic :=
  uncolored_colorizeDiagnosticLoop severity diagnostic 0 [] diagnostic rfl rfl h (fun _ => rfl)

/-- The time of a record, as its line shows it. -/
def recordTime (toUtc : ℤ → Option Utc) (record : LogRecord) : Option Bytes :=
  let seconds := record.timestamp / 1000000000
  let fractionalMilliseconds := ((record.timestamp - seconds * 1000000000) / 1000000).toNat
  (toUtc seconds).map fun utc => putTime utc ++ ascii "." ++ padded 3 fractionalMilliseconds ++ ascii "Z"

/-- A record as a reader of its line knows it. -/
structure LogEntry where
  time : Bytes
  severity : LogSeverity
  subsystem : Bytes
  message : Bytes
deriving DecidableEq

def readSeverity (text : Bytes) : Option LogSeverity :=
  if text = ascii "DEBUG" then some .debug
  else if text = ascii "INFO" then some .info
  else if text = ascii "WARNING" then some .warning
  else if text = ascii "ERROR" then some .error
  else none

/-- What stands before the next closing bracket, and what stands behind it. -/
def upToClosing (text : Bytes) : Bytes × Bytes := text.span (· ≠ closing)

/-- The parts of a line, read from the left. -/
def readLine (line : Bytes) : Option LogEntry :=
  let time := upToClosing ((uncolored false line).drop 1)
  let severity := upToClosing (time.2.drop 3)
  let subsystem := upToClosing (severity.2.drop 3)
  (readSeverity severity.1).map fun known => ⟨time.1,known,unescape subsystem.1,unescape (subsystem.2.drop 2)⟩

theorem readSeverity_text (severity : LogSeverity) : readSeverity severity.text = some severity := by
  cases severity <;> decide

theorem upToClosing_append {s : Bytes} (h : closing ∉ s) (t : Bytes) :
    upToClosing (s ++ closing :: t) = (s,closing :: t) := by
  have hall : ∀ b ∈ s, decide (b ≠ closing) = true := by
    rintro b hb
    exact decide_eq_true fun heq => h (heq ▸ hb)
  rw [upToClosing,List.span_eq_takeWhile_dropWhile,List.takeWhile_append_of_pos hall,
    List.dropWhile_append_of_pos hall]
  simp

/-- A text that is written without a closing bracket is escaped without one. -/
theorem closing_escaped {value : Bytes} (h : closing ∉ value) (style : DiagnosticEscapeStyle) :
    closing ∉ appendSafeDiagnostic style value := by
  have hhexadecimal : ∀ b : Byte, closing ∉ appendHexadecimalByte b := forall_byte (by decide +kernel)
  have hshort : ∀ b : Byte, b ≠ closing → closing ∉ appendByte style b := by
    cases style <;> exact forall_byte (by decide +kernel)
  induction value using rounds with
  | nil => simp
  | scalar v rest hv ih =>
    simp only [List.mem_append,not_or] at h
    rw [append_scalar style hv,List.mem_append,not_or]
    refine ⟨?_,ih h.2⟩
    rcases appendScalarBytes_cases v with ⟨-,htext⟩ | ⟨hcontrol,-⟩
    · rw [htext]
      exact h.1
    · rw [hcontrol,appendScalarBytes,List.mem_flatMap]
      rintro ⟨b,-,hb⟩
      exact hhexadecimal b hb
  | byte b rest hlone ih =>
    simp only [List.mem_cons,not_or] at h
    rw [append_byte style hlone,List.mem_append,not_or]
    exact ⟨hshort b (Ne.symm h.1),ih h.2⟩

variable {toUtc : ℤ → Option Utc} {record : LogRecord} {line : Bytes}

def LogRecord.entry (toUtc : ℤ → Option Utc) (record : LogRecord) : Option LogEntry :=
  (recordTime toUtc record).map fun time => ⟨time,record.severity,record.subsystem,record.message⟩

def bracketed (time severity subsystem message : Bytes) : Bytes :=
  ascii "[" ++ (time ++ closing :: (ascii " [" ++ (severity ++ closing :: (ascii " [" ++
    (subsystem ++ closing :: (ascii " " ++ message))))))

theorem formatLogRecord_eq (toUtc : ℤ → Option Utc) (record : LogRecord) : formatLogRecord toUtc record =
    (recordTime toUtc record).map fun time => bracketed time record.severity.text
      (appendSafeDiagnostic .log record.subsystem) (appendSafeDiagnostic .log record.message) := by
  have hzone : ascii "Z] [" = ascii "Z" ++ closing :: ascii " [" := rfl
  have hnext : ascii "] [" = closing :: ascii " [" := rfl
  have hlast : ascii "] " = closing :: ascii " " := rfl
  unfold formatLogRecord recordTime bracketed
  rw [hzone,hnext,hlast]
  dsimp only
  cases hutc : toUtc (record.timestamp / 1000000000) with
  | none => rfl
  | some utc =>
    refine congrArg some ?_
    simp only [List.append_assoc,List.cons_append]

theorem closing_decimal (n : ℕ) : closing ∉ toDecimal n := by
  intro h
  have hdigit := List.all_eq_true.mp (toDecimal_digits n) closing h
  exact absurd hdigit (by decide)

theorem closing_padded (width n : ℕ) : closing ∉ padded width n := by
  rw [padded,List.mem_append,not_or]
  refine ⟨?_,closing_decimal n⟩
  intro h
  exact absurd (List.eq_of_mem_replicate h) (by decide)

theorem closing_time {time : Bytes} (h : recordTime toUtc record = some time) : closing ∉ time := by
  obtain ⟨utc,-,rfl⟩ := Option.map_eq_some_iff.mp h
  have hplain : closing ∉ ascii "-" ∧ closing ∉ ascii "T" ∧ closing ∉ ascii ":" ∧ closing ∉ ascii "." ∧
      closing ∉ ascii "Z" := by decide
  obtain ⟨hdash,hmark,hcolon,hpoint,hzone⟩ := hplain
  simp only [putTime,List.mem_append,not_or]
  exact ⟨⟨⟨⟨⟨⟨⟨⟨⟨⟨⟨⟨⟨closing_decimal _,hdash⟩,closing_padded _ _⟩,hdash⟩,closing_padded _ _⟩,hmark⟩,
    closing_padded _ _⟩,hcolon⟩,closing_padded _ _⟩,hcolon⟩,closing_padded _ _⟩,hpoint⟩,closing_padded _ _⟩,hzone⟩

theorem formatLogRecord_no_escape {text : Bytes} (h : formatLogRecord toUtc record = some text) : escape ∉ text := by
  intro hmem
  exact absurd (formatLogRecord_printable h escape hmem).1 (by decide)

theorem uncolored_consoleLine {colorsEnabled : Bool} (h : consoleLine toUtc colorsEnabled record = some line) :
    formatLogRecord toUtc record = some (uncolored false line) := by
  obtain ⟨text,htext,rfl⟩ := Option.map_eq_some_iff.mp h
  have hplain := formatLogRecord_no_escape htext
  rw [htext]
  split
  · rw [uncolored_colorizeSeverity hplain]
  · rw [uncolored_of_plain hplain]

/-- The line of a record is read back as the record. -/
theorem readLine_consoleLine {colorsEnabled : Bool} (h : consoleLine toUtc colorsEnabled record = some line)
    (hsubsystem : closing ∉ record.subsystem) : readLine line = record.entry toUtc := by
  have hformatted := uncolored_consoleLine h
  rw [formatLogRecord_eq] at hformatted
  obtain ⟨time,htime,hline⟩ := Option.map_eq_some_iff.mp hformatted
  have hseverity : closing ∉ record.severity.text := by
    cases record.severity <;> decide
  have hopened : (uncolored false line).drop 1 = time ++ closing :: (ascii " [" ++ (record.severity.text ++ closing ::
      (ascii " [" ++ (appendSafeDiagnostic .log record.subsystem ++ closing ::
        (ascii " " ++ appendSafeDiagnostic .log record.message))))) := by
    rw [← hline]
    rfl
  have hdropped (s : Bytes) : (closing :: (ascii " [" ++ s)).drop 3 = s := rfl
  have hmessage (s : Bytes) : (closing :: (ascii " " ++ s)).drop 2 = s := rfl
  unfold readLine
  dsimp only
  rw [hopened,upToClosing_append (closing_time htime),hdropped,upToClosing_append hseverity,hdropped,
    upToClosing_append (closing_escaped hsubsystem .log),hmessage,readSeverity_text,unescape_append,unescape_append,
    LogRecord.entry,htime]
  rfl

/-- Every escape of a text begins a colour or ends one. -/
def OnlyColors (s : Bytes) : Prop := ∀ before rest, s = before ++ escape :: rest →
  ansiReset <+: escape :: rest ∨ ∃ severity, severityColor severity <+: escape :: rest

theorem OnlyColors.of_plain {s : Bytes} (h : escape ∉ s) : OnlyColors s := by
  rintro before rest rfl
  exact absurd (List.mem_append_right _ List.mem_cons_self) h

theorem OnlyColors.of_sequence {s : Bytes} (h : s = ansiReset ∨ ∃ severity, s = severityColor severity) :
    OnlyColors s := by
  have hplain : escape ∉ s.tail := by
    rcases h with rfl | ⟨severity,rfl⟩
    · decide
    · cases severity <;> decide
  rintro before rest hsplit
  cases before with
  | nil =>
    rw [List.nil_append] at hsplit
    rw [← hsplit]
    rcases h with rfl | ⟨severity,rfl⟩
    · exact .inl (List.prefix_refl _)
    · exact .inr ⟨severity,List.prefix_refl _⟩
  | cons b before =>
    rw [hsplit] at hplain
    exact absurd (List.mem_append_right _ List.mem_cons_self) hplain

theorem OnlyColors.append {s t : Bytes} (hs : OnlyColors s) (ht : OnlyColors t) : OnlyColors (s ++ t) := by
  intro before rest hsplit
  rcases List.append_eq_append_iff.mp hsplit with ⟨more,rfl,hmore⟩ | ⟨more,rfl,hmore⟩
  · exact ht more rest hmore
  · cases more with
    | nil => exact ht [] rest hmore.symm
    | cons b more =>
      obtain ⟨rfl,rfl⟩ := List.cons.inj hmore
      rcases hs before more rfl with hreset | ⟨severity,hcolor⟩
      · exact .inl (hreset.trans (List.prefix_append _ t))
      · exact .inr ⟨severity,hcolor.trans (List.prefix_append _ t)⟩

theorem consoleLine_colors {colorsEnabled : Bool} (h : consoleLine toUtc colorsEnabled record = some line) :
    OnlyColors line := by
  obtain ⟨text,htext,rfl⟩ := Option.map_eq_some_iff.mp h
  have hplain := formatLogRecord_no_escape htext
  split
  · rcases colorizeSeverity_cases text record.severity with hsame | ⟨before,middle,after,rfl,hcolored⟩
    · rw [hsame]
      exact .of_plain hplain
    · simp only [List.mem_append,not_or] at hplain
      rw [hcolored]
      exact ((((OnlyColors.of_plain hplain.1.1).append (.of_sequence (.inr ⟨_,rfl⟩))).append
        (.of_plain hplain.1.2)).append (.of_sequence (.inl rfl))).append (.of_plain hplain.2)
  · exact .of_plain hplain

/-- What a console line consists of: visible bytes, and escapes where colours are enabled. -/
theorem consoleLine_bytes {colorsEnabled : Bool} (h : consoleLine toUtc colorsEnabled record = some line) :
    ∀ b ∈ line, 0x20 ≤ b ∧ b ≠ 0x7F ∨ b = escape ∧ colorsEnabled = true := by
  obtain ⟨text,htext,rfl⟩ := Option.map_eq_some_iff.mp h
  have hprintable := formatLogRecord_printable htext
  have hcolor : ∀ severity, ∀ b ∈ severityColor severity, 0x20 ≤ b ∧ b ≠ 0x7F ∨ b = escape := by
    intro severity
    cases severity <;> decide +kernel
  have hreset : ∀ b ∈ ansiReset, 0x20 ≤ b ∧ b ≠ 0x7F ∨ b = escape := by decide +kernel
  cases colorsEnabled with
  | false => exact fun b hb => .inl (hprintable b hb)
  | true =>
    intro b hb
    rw [if_pos rfl] at hb
    have hbytes : 0x20 ≤ b ∧ b ≠ 0x7F ∨ b = escape := by
      rcases colorizeSeverity_cases text record.severity with hsame | ⟨before,middle,after,hsplit,hcolored⟩
      · rw [hsame] at hb
        exact .inl (hprintable b hb)
      · rw [hcolored] at hb
        rw [hsplit] at hprintable
        simp only [List.mem_append] at hb hprintable
        rcases hb with (((hb | hb) | hb) | hb) | hb
        · exact .inl (hprintable b (by simp [hb]))
        · exact hcolor _ b hb
        · exact .inl (hprintable b (by simp [hb]))
        · exact hreset b hb
        · exact .inl (hprintable b (by simp [hb]))
    rcases hbytes with hvisible | hescape
    · exact .inl hvisible
    · exact .inr ⟨hescape,rfl⟩

theorem consoleLine_no_lf {colorsEnabled : Bool} (h : consoleLine toUtc colorsEnabled record = some line) :
    lf ∉ line := by
  intro hmem
  rcases consoleLine_bytes h lf hmem with ⟨hvisible,-⟩ | ⟨hescape,-⟩
  · exact absurd hvisible (by decide)
  · exact absurd hescape (by decide)

end SpareNode.Logging
