import SpareNode.Foundation.Decimal
import SpareNode.Foundation.DiagnosticEscape

/-! # Log records

A record is written as one line: its time, its severity, and the subsystem and the message with
what they hold of control bytes escaped. The conversion of a time to UTC is the platform's.
-/
namespace SpareNode.Logging
open Text Utf8

inductive LogSeverity where
  | debug | info | warning | error
deriving DecidableEq, Repr

/-- `to_string`. -/
def LogSeverity.text : LogSeverity → Bytes
  | .debug => ascii "DEBUG"
  | .info => ascii "INFO"
  | .warning => ascii "WARNING"
  | .error => ascii "ERROR"

/-- The fields of `std::tm` that a record shows. -/
structure Utc where
  year : ℕ
  month : ℕ
  day : ℕ
  hour : ℕ
  minute : ℕ
  second : ℕ

/-- The time is in nanoseconds since the epoch. -/
structure LogRecord where
  timestamp : ℤ
  severity : LogSeverity
  subsystem : Bytes
  message : Bytes

/-- A number behind `std::setw` and `std::setfill('0')`. -/
def padded (width n : ℕ) : Bytes := List.replicate (width - (toDecimal n).length) (char '0') ++ toDecimal n

/-- `std::put_time` for `%Y-%m-%dT%H:%M:%S`. -/
def putTime (utc : Utc) : Bytes :=
  toDecimal utc.year ++ ascii "-" ++ padded 2 utc.month ++ ascii "-" ++ padded 2 utc.day ++ ascii "T" ++
    padded 2 utc.hour ++ ascii ":" ++ padded 2 utc.minute ++ ascii ":" ++ padded 2 utc.second

/-- `format_log_record`; where the conversion to UTC fails an exception leaves it. -/
def formatLogRecord (toUtc : ℤ → Option Utc) (record : LogRecord) : Option Bytes := do
  let seconds := record.timestamp / 1000000000
  let fractionalMilliseconds := ((record.timestamp - seconds * 1000000000) / 1000000).toNat
  let utc ← toUtc seconds
  return ascii "[" ++ putTime utc ++ ascii "." ++ padded 3 fractionalMilliseconds ++ ascii "Z] [" ++
    record.severity.text ++ ascii "] [" ++ appendSafeDiagnostic .log record.subsystem ++ ascii "] " ++
    appendSafeDiagnostic .log record.message

def Printable (text : Bytes) : Prop := ∀ b ∈ text, 0x20 ≤ b ∧ b ≠ 0x7F

theorem Printable.append {s t : Bytes} (hs : Printable s) (ht : Printable t) : Printable (s ++ t) :=
  List.forall_mem_append.mpr ⟨hs,ht⟩

theorem printable_of_all {text : Bytes} (h : text.all isEscapeByte = true) : Printable text := by
  intro b hb
  obtain ⟨hlow,hhigh⟩ := isEscapeByte_range (List.all_eq_true.mp h b hb)
  exact ⟨hlow,fun heq => absurd hhigh (by rw [heq]; decide)⟩

theorem digit_printable {b : Byte} (h : isDigit 10 b = true) : 0x20 ≤ b ∧ b ≠ 0x7F := by
  have hrange : char '0' ≤ b ∧ b ≤ char 'f' := by
    unfold isDigit digitValue at h
    split at h
    · rename_i heq
      split at heq
      · rename_i hdigit
        exact ⟨hdigit.1,UInt8.le_trans hdigit.2 (by decide)⟩
      · split at heq
        · rename_i hupper
          exact ⟨UInt8.le_trans (by decide) hupper.1,UInt8.le_trans hupper.2 (by decide)⟩
        · split at heq
          · rename_i hlower
            exact ⟨UInt8.le_trans (by decide) hlower.1,hlower.2⟩
          · cases heq
    · cases h
  constructor
  · exact UInt8.le_trans (by decide) hrange.1
  · rintro rfl
    exact absurd hrange.2 (by decide)

theorem printable_decimal (n : ℕ) : Printable (toDecimal n) :=
  fun b hb => digit_printable (List.all_eq_true.mp (toDecimal_digits n) b hb)

theorem printable_padded (width n : ℕ) : Printable (padded width n) := by
  refine Printable.append ?_ (printable_decimal n)
  intro b hb
  rw [List.eq_of_mem_replicate hb]
  decide

theorem printable_severity (severity : LogSeverity) : Printable severity.text := by
  apply printable_of_all
  cases severity <;> decide

theorem printable_time (utc : Utc) : Printable (putTime utc) := by
  have hdash : Printable (ascii "-") := printable_of_all (by decide)
  have hcolon : Printable (ascii ":") := printable_of_all (by decide)
  have hmark : Printable (ascii "T") := printable_of_all (by decide)
  have hdate := (((printable_decimal utc.year).append hdash).append (printable_padded 2 utc.month)).append hdash
  have hday := ((hdate.append (printable_padded 2 utc.day)).append hmark).append (printable_padded 2 utc.hour)
  have hminute := (hday.append hcolon).append (printable_padded 2 utc.minute)
  exact (hminute.append hcolon).append (printable_padded 2 utc.second)

theorem formatLogRecord_printable {toUtc : ℤ → Option Utc} {record : LogRecord} {text : Bytes}
    (h : formatLogRecord toUtc record = some text) : Printable text := by
  unfold formatLogRecord at h
  dsimp only at h
  cases hutc : toUtc (record.timestamp / 1000000000) with
  | none => simp [hutc] at h
  | some utc =>
    rw [hutc] at h
    obtain rfl := Option.some.inj h
    have hopen : Printable (ascii "[") := printable_of_all (by decide)
    have hpoint : Printable (ascii ".") := printable_of_all (by decide)
    have hzone : Printable (ascii "Z] [") := printable_of_all (by decide)
    have hnext : Printable (ascii "] [") := printable_of_all (by decide)
    have hclose : Printable (ascii "] ") := printable_of_all (by decide)
    have htime (n : ℕ) := ((hopen.append (printable_time utc)).append hpoint).append (printable_padded 3 n)
    have hseverity (n : ℕ) := (((htime n).append hzone).append (printable_severity record.severity)).append hnext
    exact (((hseverity _).append (visible .log record.subsystem)).append hclose).append (visible .log record.message)

theorem formatLogRecord_message {toUtc : ℤ → Option Utc} {record : LogRecord} {message text : Bytes}
    (h : formatLogRecord toUtc record = some text)
    (h' : formatLogRecord toUtc { record with message := message } = some text) : record.message = message := by
  unfold formatLogRecord at h h'
  dsimp only at h h'
  cases hutc : toUtc (record.timestamp / 1000000000) with
  | none => simp [hutc] at h
  | some utc =>
    rw [hutc] at h h'
    have hsame := (Option.some.inj h).trans (Option.some.inj h').symm
    exact appendSafeDiagnostic_injective (List.append_cancel_left hsame)

/-- Untrusted text reaches a terminal without control bytes and spells no scalar of its own there;
in the log it can be read back, and a record with it is one line. -/
theorem safe_diagnostic :
    (∀ (value : Bytes) (style : DiagnosticEscapeStyle),
      (∀ b ∈ appendSafeDiagnostic style value, 0x20 ≤ b ∧ b ≠ 0x7F) ∧
      (∀ i scalar, decodeOne ((appendSafeDiagnostic style value).drop i) = some scalar →
        ¬(0x80 ≤ scalar.value ∧ scalar.value ≤ 0x9F)) ∧
      (∀ i b, (appendSafeDiagnostic style value)[i]? = some b → 0x80 ≤ b → b ≤ 0x9F →
        ∃ j scalar, decodeOne ((appendSafeDiagnostic style value).drop j) = some scalar ∧ j ≤ i ∧
          i < j + scalar.byteCount) ∧
      ∀ i scalar, decodeOne ((appendSafeDiagnostic style value).drop i) = some scalar → 1 < scalar.byteCount →
        ∃ j, decodeOne (value.drop j) = some scalar ∧
          (appendSafeDiagnostic style value).take i = appendSafeDiagnostic style (value.take j) ∧
          (appendSafeDiagnostic style value).drop i = appendSafeDiagnostic style (value.drop j)) ∧
    (∀ value, unescape (appendSafeDiagnostic .log value) = value) ∧
    Function.Injective (appendSafeDiagnostic .log) ∧
    (∀ toUtc record text, formatLogRecord toUtc record = some text → cr ∉ text ∧ lf ∉ text) ∧
    ∀ toUtc record message text, formatLogRecord toUtc record = some text →
      formatLogRecord toUtc { record with message := message } = some text → record.message = message := by
  refine ⟨?_,unescape_append,appendSafeDiagnostic_injective,?_,fun _ _ _ _ => formatLogRecord_message⟩
  · intro value style
    refine ⟨visible style value,?_,?_,?_⟩
    · intro i scalar hscalar hrange
      have hnone := no_c1_scalar style value hscalar
      rw [isC1Control,decide_eq_true hrange.1,decide_eq_true hrange.2] at hnone
      cases hnone
    · intro i b hb hlow hhigh
      apply c1_byte_covered style value hb
      rw [isC1Control,Bool.and_eq_true,decide_eq_true_eq,decide_eq_true_eq]
      exact ⟨UInt8.le_iff_toNat_le.mp hlow,UInt8.le_iff_toNat_le.mp hhigh⟩
    · intro i scalar hscalar hcount
      obtain ⟨before,after,rfl,hafter,rfl,hsplit⟩ := scalar_of_output style value hscalar hcount
      refine ⟨before.length,?_,?_,?_⟩
      · rw [List.drop_left]
        exact hafter
      · rw [hsplit,List.take_left,List.take_left]
      · rw [hsplit,List.drop_left,List.drop_left]
  · intro toUtc record text htext
    have hline := formatLogRecord_printable htext
    refine ⟨fun hmem => ?_,fun hmem => ?_⟩
    · exact absurd (hline cr hmem).1 (by decide)
    · exact absurd (hline lf hmem).1 (by decide)

end SpareNode.Logging
