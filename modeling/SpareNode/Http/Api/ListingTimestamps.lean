import SpareNode.Http.Api.ListingText
import SpareNode.Http.Response.ResponseDate

/-! # The timestamps of a listing

A client that sorts a listing by the text of `modifiedAt` sorts it by time.
-/
namespace SpareNode.Http.Api
open Calendar

theorem isTimestampByte_digits {s : Bytes} (h : s.all (isDigit 10) = true) : s.all isTimestampByte = true := by
  rw [List.all_eq_true] at h ⊢
  intro b hb
  rw [isTimestampByte,h b hb,Bool.true_or]

theorem paddedDecimal_timestamp (width n : ℕ) : (paddedDecimal width n).all isTimestampByte = true :=
  isTimestampByte_digits (paddedDecimal_digits width n)

theorem yearText_timestamp (year : ℤ) : (yearText year).all isTimestampByte = true := by
  unfold yearText setWidth
  rw [List.all_append,Bool.and_eq_true]
  constructor
  · rw [List.all_eq_true]
    intro b hb
    rw [List.eq_of_mem_replicate hb]
    rfl
  · split
    · rw [List.all_cons,isTimestampByte_digits (toDecimal_digits _),Bool.and_true]
      rfl
    · exact isTimestampByte_digits (toDecimal_digits _)

/-- Every timestamp is made of digits and separators, whatever its year. -/
theorem formatTimestamp_timestamp (value : ℤ) : (formatTimestamp value).all isTimestampByte = true := by
  unfold formatTimestamp
  simp only [List.all_append,yearText_timestamp,paddedDecimal_timestamp,Bool.true_and,Bool.and_eq_true]
  decide

theorem setWidth_length_le {width n : ℕ} {text : Bytes} (hwidth : width ≤ n) (h : text.length ≤ n) :
    (setWidth width text).length ≤ n := by
  rw [setWidth,List.length_append,List.length_replicate]
  omega

/-- A year of sixteen bits has five digits at most, and perhaps a sign. -/
theorem yearText_length_le (year : ℤ) : (yearText (year.bmod (2 ^ 16))).length ≤ 6 := by
  have hlow : -(2 ^ 15) ≤ year.bmod (2 ^ 16) := Int.le_bmod (by decide)
  have hhigh : year.bmod (2 ^ 16) < 2 ^ 15 := Int.bmod_lt (by decide)
  apply setWidth_length_le (by decide)
  split
  · have hdigits : (toDecimal (year.bmod (2 ^ 16)).natAbs).length ≤ 5 := toDecimal_length_le (by omega) (by decide)
    rw [List.length_cons]
    omega
  · exact (toDecimal_length_le (k := 5) (by omega) (by decide)).trans (by decide)

/-- No timestamp is longer than one of a negative year of five digits. -/
theorem formatTimestamp_length_le (value : ℤ) : (formatTimestamp value).length ≤ 22 := by
  have hyear := yearText_length_le (dateOf (value / secondsPerDay)).year
  have hmonths := (dateOf (value / secondsPerDay)).month_le
  have hdays := (dateOf (value / secondsPerDay)).day_le_31
  have hhours := (timeOfDay value).hours_lt
  have hminutes := (timeOfDay value).minutes_lt
  have hseconds := (timeOfDay value).seconds_lt
  have hdash : (ascii "-").length = 1 := rfl
  have hcolon : (ascii ":").length = 1 := rfl
  have htime : (ascii "T").length = 1 := rfl
  have hzone : (ascii "Z").length = 1 := rfl
  unfold formatTimestamp
  dsimp only
  rw [timeOfDay_sub]
  simp only [List.length_append,hdash,hcolon,htime,hzone]
  rw [paddedDecimal_length (by omega) (by omega),paddedDecimal_length (by omega) (by omega),
    paddedDecimal_length (by omega) (by omega),paddedDecimal_length (by omega) (by omega),
    paddedDecimal_length (by omega) (by omega)]
  omega

theorem yearText_eq {year : ℤ} (h : 0 ≤ year) : yearText year = paddedDecimal 4 year.toNat := by
  rw [yearText,if_neg (not_lt.mpr h)]
  rfl

section
variable {value : ℤ}

theorem formatTimestamp_eq (h : InFourDigitYears value) : formatTimestamp value =
    paddedDecimal 4 (dateOf (value / secondsPerDay)).year.toNat ++ (ascii "-" ++
      (paddedDecimal 2 (dateOf (value / secondsPerDay)).month ++ (ascii "-" ++
        (paddedDecimal 2 (dateOf (value / secondsPerDay)).day ++ (ascii "T" ++
          (paddedDecimal 2 (timeOfDay value).hours ++ (ascii ":" ++ (paddedDecimal 2 (timeOfDay value).minutes ++
            (ascii ":" ++ (paddedDecimal 2 (timeOfDay value).seconds ++ ascii "Z")))))))))) := by
  obtain ⟨hlow,hhigh⟩ : 0 ≤ (dateOf (value / secondsPerDay)).year ∧ (dateOf (value / secondsPerDay)).year ≤ 9999 :=
    inFourDigitYears_iff.mp h
  have hyear : (dateOf (value / secondsPerDay)).year.bmod (2 ^ 16) = (dateOf (value / secondsPerDay)).year :=
    Int.bmod_eq_of_le (by omega) (by omega)
  unfold formatTimestamp
  dsimp only
  rw [timeOfDay_sub,hyear,yearText_eq hlow]

theorem formatTimestamp_length (h : InFourDigitYears value) : (formatTimestamp value).length = 20 := by
  obtain ⟨hlow,hhigh⟩ := inFourDigitYears_iff.mp h
  have hyear : (dateOf (value / secondsPerDay)).year.toNat < 10000 := by
    rw [dateOf_year]
    omega
  have hmonths := (dateOf (value / secondsPerDay)).month_le
  have hdays := (dateOf (value / secondsPerDay)).day_le_31
  have hhours := (timeOfDay value).hours_lt
  have hminutes := (timeOfDay value).minutes_lt
  have hseconds := (timeOfDay value).seconds_lt
  have hdash : (ascii "-").length = 1 := rfl
  have hcolon : (ascii ":").length = 1 := rfl
  have htime : (ascii "T").length = 1 := rfl
  have hzone : (ascii "Z").length = 1 := rfl
  rw [formatTimestamp_eq h]
  simp only [List.length_append,hdash,hcolon,htime,hzone]
  rw [paddedDecimal_length (by omega) hyear,paddedDecimal_length (by omega) (by omega),
    paddedDecimal_length (by omega) (by omega),paddedDecimal_length (by omega) (by omega),
    paddedDecimal_length (by omega) (by omega),paddedDecimal_length (by omega) (by omega)]

/-- A later second has a later date, or the same date and a later time. -/
theorem second_lt_cases {a b : ℤ} (h : a < b) :
    (dateOf (a / secondsPerDay)).Before (dateOf (b / secondsPerDay)) ∨
    dateOf (a / secondsPerDay) = dateOf (b / secondsPerDay) ∧
      ((timeOfDay a).hours < (timeOfDay b).hours ∨ (timeOfDay a).hours = (timeOfDay b).hours ∧
        ((timeOfDay a).minutes < (timeOfDay b).minutes ∨ (timeOfDay a).minutes = (timeOfDay b).minutes ∧
          (timeOfDay a).seconds < (timeOfDay b).seconds)) := by
  rcases lt_or_eq_of_le (Int.ediv_le_ediv (show 0 < secondsPerDay by decide) h.le) with hday | hday
  · exact .inl (before_iff.mpr hday)
  · refine .inr ⟨by rw [hday],?_⟩
    have ha := secondAt_eq a
    have hb := secondAt_eq b
    unfold secondAt at ha hb
    rw [dayNumber_dateOf] at ha hb
    rw [hday] at ha
    have hhours := (timeOfDay a).hours_lt
    have hminutes := (timeOfDay a).minutes_lt
    have hseconds := (timeOfDay a).seconds_lt
    have hotherMinutes := (timeOfDay b).minutes_lt
    have hotherSeconds := (timeOfDay b).seconds_lt
    omega

theorem formatTimestamp_lt {a b : ℤ} (ha : InFourDigitYears a) (hb : InFourDigitYears b) (h : a < b) :
    formatTimestamp a < formatTimestamp b := by
  obtain ⟨halow,hahigh⟩ := inFourDigitYears_iff.mp ha
  obtain ⟨hblow,hbhigh⟩ := inFourDigitYears_iff.mp hb
  rw [formatTimestamp_eq ha,formatTimestamp_eq hb]
  have hcases := second_lt_cases h
  have hmonths := (dateOf (a / secondsPerDay)).month_le
  have hdays := (dateOf (a / secondsPerDay)).day_le_31
  have hotherMonths := (dateOf (b / secondsPerDay)).month_le
  have hotherDays := (dateOf (b / secondsPerDay)).day_le_31
  have hhours := (timeOfDay a).hours_lt
  have hminutes := (timeOfDay a).minutes_lt
  have hseconds := (timeOfDay a).seconds_lt
  have hotherHours := (timeOfDay b).hours_lt
  have hotherMinutes := (timeOfDay b).minutes_lt
  have hotherSeconds := (timeOfDay b).seconds_lt
  unfold Date.Before at hcases
  simp only [Date.ext_iff,dateOf_year] at hcases ⊢
  -- one field after the other: either it decides the order, or it is the same
  apply paddedDecimal_append_lt (by omega) (by omega) (by omega)
  by_cases hyear : yearOf (a / secondsPerDay) = yearOf (b / secondsPerDay)
  swap
  · exact .inl (by omega)
  refine .inr ⟨by rw [hyear],List.append_left_lt (paddedDecimal_append_lt (by omega) (by omega) (by omega) ?_)⟩
  by_cases hmonth : (dateOf (a / secondsPerDay)).month = (dateOf (b / secondsPerDay)).month
  swap
  · exact .inl (by omega)
  refine .inr ⟨hmonth,List.append_left_lt (paddedDecimal_append_lt (by omega) (by omega) (by omega) ?_)⟩
  by_cases hday : (dateOf (a / secondsPerDay)).day = (dateOf (b / secondsPerDay)).day
  swap
  · exact .inl (by omega)
  refine .inr ⟨hday,List.append_left_lt (paddedDecimal_append_lt (by omega) (by omega) (by omega) ?_)⟩
  by_cases hhour : (timeOfDay a).hours = (timeOfDay b).hours
  swap
  · exact .inl (by omega)
  refine .inr ⟨hhour,List.append_left_lt (paddedDecimal_append_lt (by omega) (by omega) (by omega) ?_)⟩
  by_cases hminute : (timeOfDay a).minutes = (timeOfDay b).minutes
  swap
  · exact .inl (by omega)
  exact .inr ⟨hminute,List.append_left_lt (paddedDecimal_append_lt (by omega) (by omega) (by omega) (.inl (by omega)))⟩

end

/-- A timestamp is made of digits and separators; in the years of four digits it has twenty bytes, and two of them
sort as their seconds do. -/
theorem listing_timestamps_ordered : (∀ value, (formatTimestamp value).all isTimestampByte = true) ∧
    ∀ a b, InFourDigitYears a → InFourDigitYears b →
      (formatTimestamp a).length = 20 ∧ (formatTimestamp a < formatTimestamp b ↔ a < b) := by
  refine ⟨formatTimestamp_timestamp,?_⟩
  intro a b ha hb
  refine ⟨formatTimestamp_length ha,?_,formatTimestamp_lt ha hb⟩
  intro h
  rcases lt_trichotomy a b with hlt | rfl | hgt
  · exact hlt
  · exact absurd h (List.lt_irrefl _)
  · exact absurd h (List.lt_asymm (formatTimestamp_lt hb ha hgt))

theorem listing_timestamps_ordered_1970 : (formatTimestamp 0).length = 20 ∧ formatTimestamp (-1) < formatTimestamp 0 :=
  ⟨(listing_timestamps_ordered.2 0 0 (by decide) (by decide)).1,
    (listing_timestamps_ordered.2 (-1) 0 (by decide) (by decide)).2.mpr (by decide)⟩

end SpareNode.Http.Api
