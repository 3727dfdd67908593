import SpareNode.Foundation.Decimal
import SpareNode.Library.Calendar

/-! # Dates in texts

`format_response_date` and `format_timestamp` write an instant of the system clock in the civil calendar. Within the
years of four digits a text names exactly one second: another second has another text, and the timestamps of a
listing sort as their seconds do.
-/
namespace SpareNode
open Calendar

/-- `std::setfill('0') << std::setw(width)` before a text. -/
def setWidth (width : ℕ) (text : Bytes) : Bytes := List.replicate (width - text.length) (char '0') ++ text

/-- An unsigned number behind `std::setw(width)`. -/
def paddedDecimal (width n : ℕ) : Bytes := setWidth width (toDecimal n)

theorem setWidth_length {width : ℕ} {text : Bytes} (h : text.length ≤ width) : (setWidth width text).length = width := by
  rw [setWidth,List.length_append,List.length_replicate]
  omega

theorem paddedDecimal_length {width n : ℕ} (hwidth : 0 < width) (h : n < 10 ^ width) :
    (paddedDecimal width n).length = width := setWidth_length (toDecimal_length_le h hwidth)

theorem paddedDecimal_digits (width n : ℕ) : (paddedDecimal width n).all (isDigit 10) = true := by
  rw [paddedDecimal,setWidth,List.all_append,toDecimal_digits,Bool.and_true,List.all_eq_true]
  intro b hb
  rw [List.eq_of_mem_replicate hb]
  rfl

theorem numeral_paddedDecimal (width n : ℕ) : numeral 10 (paddedDecimal width n) = n := by
  have hzeros : (List.replicate (width - (toDecimal n).length) (char '0')).foldl
      (fun value b => value * 10 + (digitValue b).getD 0) 0 = 0 := by
    induction width - (toDecimal n).length with
    | zero => rfl
    | succ k ih =>
      rw [List.replicate_succ,List.foldl_cons]
      exact ih
  rw [paddedDecimal,setWidth,numeral,List.foldl_append,hzeros]
  exact numeral_toDecimal n

theorem paddedDecimal_injective {width a b : ℕ} (h : paddedDecimal width a = paddedDecimal width b) : a = b := by
  rw [← numeral_paddedDecimal width a,h,numeral_paddedDecimal]

theorem paddedDecimal_append {width a b : ℕ} {s t : Bytes} (hwidth : 0 < width) (ha : a < 10 ^ width)
    (hb : b < 10 ^ width) (h : paddedDecimal width a ++ s = paddedDecimal width b ++ t) : a = b ∧ s = t := by
  obtain ⟨hnumber,hrest⟩ := List.append_inj h
    ((paddedDecimal_length hwidth ha).trans (paddedDecimal_length hwidth hb).symm)
  exact ⟨paddedDecimal_injective hnumber,hrest⟩

theorem numeral_cons (b : Byte) (digits : Bytes) :
    numeral 10 (b :: digits) = (digitValue b).getD 0 * 10 ^ digits.length + numeral 10 digits := by
  have hfold (digits : Bytes) (value : ℕ) : digits.foldl (fun value b => value * 10 + (digitValue b).getD 0) value =
      value * 10 ^ digits.length + numeral 10 digits := by
    induction digits generalizing value with
    | nil => simp [numeral]
    | cons digit digits ih =>
      have hread : numeral 10 (digit :: digits) = (0 * 10 + (digitValue digit).getD 0) * 10 ^ digits.length +
          numeral 10 digits := ih _
      rw [List.foldl_cons,ih,hread,List.length_cons,Nat.pow_succ]
      ring
  rw [numeral,List.foldl_cons,hfold,Nat.zero_mul,Nat.zero_add]

theorem numeral_lt_pow {digits : Bytes} (h : digits.all (isDigit 10) = true) : numeral 10 digits < 10 ^ digits.length := by
  induction digits with
  | nil => decide
  | cons digit digits ih =>
    rw [List.all_cons,Bool.and_eq_true] at h
    have hrest := ih h.2
    have hdigit : (digitValue digit).getD 0 < 10 := by
      have hall : ∀ b, isDigit 10 b = true → (digitValue b).getD 0 < 10 := forall_byte (by decide +kernel)
      exact hall digit h.1
    rw [numeral_cons,List.length_cons,Nat.pow_succ]
    nlinarith

theorem digit_lt : ∀ a, isDigit 10 a = true → ∀ b, isDigit 10 b = true →
    ((digitValue a).getD 0 < (digitValue b).getD 0 ↔ a < b) := by
  have hvalue : ∀ b, isDigit 10 b = true → (digitValue b).getD 0 = b.toNat - 48 ∧ 48 ≤ b.toNat :=
    forall_byte (by decide +kernel)
  intro a ha b hb
  obtain ⟨havalue,halow⟩ := hvalue a ha
  obtain ⟨hbvalue,hblow⟩ := hvalue b hb
  rw [havalue,hbvalue,UInt8.lt_iff_toNat_lt]
  omega

/-- Of two digit strings of one length the one of the smaller number sorts first. -/
theorem lt_of_numeral_lt {s t : Bytes} (hlength : s.length = t.length) (hs : s.all (isDigit 10) = true)
    (ht : t.all (isDigit 10) = true) (h : numeral 10 s < numeral 10 t) : s < t := by
  induction s generalizing t with
  | nil =>
    rw [List.eq_nil_of_length_eq_zero hlength.symm] at h
    cases h
  | cons a s ih =>
    cases t with
    | nil => cases hlength
    | cons b t =>
      rw [List.all_cons,Bool.and_eq_true] at hs ht
      rw [List.length_cons,List.length_cons,Nat.add_right_cancel_iff] at hlength
      rw [numeral_cons,numeral_cons,hlength] at h
      have hsmall := numeral_lt_pow hs.2
      have hother := numeral_lt_pow ht.2
      rw [hlength] at hsmall
      rw [List.cons_lt_cons_iff,← digit_lt a hs.1 b ht.1]
      rcases lt_trichotomy ((digitValue a).getD 0) ((digitValue b).getD 0) with hdigits | hdigits | hdigits
      · exact .inl hdigits
      · rw [hdigits] at h
        have hsame : a = b := by
          have hnot (x y : Byte) (hx : isDigit 10 x = true) (hy : isDigit 10 y = true)
              (hxy : (digitValue x).getD 0 = (digitValue y).getD 0) : ¬ x < y := by
            rw [← digit_lt x hx y hy,hxy]
            exact lt_irrefl _
          exact UInt8.le_antisymm (UInt8.not_lt.mp (hnot b a ht.1 hs.1 hdigits.symm))
            (UInt8.not_lt.mp (hnot a b hs.1 ht.1 hdigits))
        exact .inr ⟨hsame,ih hlength hs.2 ht.2 (by omega)⟩
      · exfalso
        have hstep := Nat.mul_le_mul_right (10 ^ t.length) (Nat.succ_le_of_lt hdigits)
        rw [Nat.succ_mul] at hstep
        omega

theorem append_lt_of_lt {s t : Bytes} (hlength : s.length = t.length) (h : s < t) (u v : Bytes) : s ++ u < t ++ v := by
  induction s generalizing t with
  | nil =>
    rw [List.eq_nil_of_length_eq_zero hlength.symm] at h
    exact absurd h (List.lt_irrefl _)
  | cons a s ih =>
    cases t with
    | nil => cases hlength
    | cons b t =>
      rw [List.length_cons,List.length_cons,Nat.add_right_cancel_iff] at hlength
      rw [List.cons_append,List.cons_append,List.cons_lt_cons_iff]
      exact (List.cons_lt_cons_iff.mp h).imp_right fun hrest => ⟨hrest.1,ih hlength hrest.2⟩

/-- Numbers of a fixed width sort before what follows them. -/
theorem paddedDecimal_append_lt {width a b : ℕ} (hwidth : 0 < width) (ha : a < 10 ^ width) (hb : b < 10 ^ width)
    {s t : Bytes} (h : a < b ∨ a = b ∧ s < t) : paddedDecimal width a ++ s < paddedDecimal width b ++ t := by
  rcases h with hlt | ⟨rfl,hlt⟩
  · apply append_lt_of_lt ((paddedDecimal_length hwidth ha).trans (paddedDecimal_length hwidth hb).symm)
    apply lt_of_numeral_lt ((paddedDecimal_length hwidth ha).trans (paddedDecimal_length hwidth hb).symm)
    · exact paddedDecimal_digits width a
    · exact paddedDecimal_digits width b
    · rwa [numeral_paddedDecimal,numeral_paddedDecimal]
  · exact List.append_left_lt hlt

/-- `std::chrono::hh_mm_ss` of a time within a day. -/
@[ext] structure TimeOfDay where
  hours : ℕ
  minutes : ℕ
  seconds : ℕ
  hours_lt : hours < 24
  minutes_lt : minutes < 60
  seconds_lt : seconds < 60

def secondsPerDay : ℤ := 86400

theorem secondOfDay_lt (second : ℤ) : (second % secondsPerDay).toNat < 86400 := by
  unfold secondsPerDay
  omega

def timeOfDay (second : ℤ) : TimeOfDay where
  hours := (second % secondsPerDay).toNat / 3600
  minutes := (second % secondsPerDay).toNat / 60 % 60
  seconds := (second % secondsPerDay).toNat % 60
  hours_lt := Nat.div_lt_of_lt_mul (secondOfDay_lt second)
  minutes_lt := Nat.mod_lt _ (Nat.succ_pos _)
  seconds_lt := Nat.mod_lt _ (Nat.succ_pos _)

/-- The second that a date and a time name. -/
def secondAt (d : Date) (t : TimeOfDay) : ℤ :=
  d.dayNumber * secondsPerDay + (t.hours * 3600 + t.minutes * 60 + t.seconds : ℕ)

theorem secondAt_eq (second : ℤ) : secondAt (dateOf (second / secondsPerDay)) (timeOfDay second) = second := by
  have hlt := secondOfDay_lt second
  unfold secondAt timeOfDay
  rw [dayNumber_dateOf]
  dsimp only
  unfold secondsPerDay at hlt ⊢
  omega

theorem timeOfDay_sub (second day : ℤ) : timeOfDay (second - day * secondsPerDay) = timeOfDay second := by
  have hmod : (second - day * secondsPerDay) % secondsPerDay = second % secondsPerDay := Int.sub_mul_emod_self_right ..
  unfold timeOfDay
  simp only [hmod]

def InFourDigitYears (second : ℤ) : Prop :=
  yearStart 0 * secondsPerDay ≤ second ∧ second < yearStart 10000 * secondsPerDay

instance : DecidablePred InFourDigitYears := fun _ => inferInstanceAs (Decidable (_ ∧ _))

theorem inFourDigitYears_iff {second : ℤ} : InFourDigitYears second ↔
    0 ≤ yearOf (second / secondsPerDay) ∧ yearOf (second / secondsPerDay) ≤ 9999 := by
  have hyears := @yearOf_mem 0 10000 (second / secondsPerDay)
  have hle : yearOf (second / secondsPerDay) < 10000 ↔ yearOf (second / secondsPerDay) ≤ 9999 := by omega
  rw [← hle,hyears]
  unfold InFourDigitYears secondsPerDay
  omega

namespace Http

def weekdays : List Bytes := ["Sun","Mon","Tue","Wed","Thu","Fri","Sat"].map ascii

def months : List Bytes :=
  ["Jan","Feb","Mar","Apr","May","Jun","Jul","Aug","Sep","Oct","Nov","Dec"].map ascii

/-- `std::chrono::weekday{date}.c_encoding()`: the first day of 1970 was a Thursday. -/
def weekday (day : ℤ) : ℕ := ((day + 4) % 7).toNat

theorem weekday_lt (day : ℤ) : weekday day < 7 := by
  unfold weekday
  omega

def responseDateText (day : ℤ) (calendar : Date) (time : TimeOfDay) : Bytes :=
  weekdays.getD (weekday day) [] ++ (ascii ", " ++ (paddedDecimal 2 calendar.day ++ (ascii " " ++
    (months.getD (calendar.month - 1) [] ++ (ascii " " ++ (paddedDecimal 4 calendar.year.toNat ++ (ascii " " ++
      (paddedDecimal 2 time.hours ++ (ascii ":" ++ (paddedDecimal 2 time.minutes ++ (ascii ":" ++
        (paddedDecimal 2 time.seconds ++ ascii " GMT"))))))))))))

/-- `format_response_date` of an instant, counted in ticks of the system clock since 1970; none is the exception for
a year without four digits. The years that a clock of 64-bit nanoseconds reaches fit into `std::chrono::year`. -/
def formatResponseDate (ticksPerSecond : ℕ) (instant : ℤ) : Option Bytes :=
  let date := instant / (secondsPerDay * ticksPerSecond)
  let calendar := dateOf date
  if calendar.year < 0 ∨ 9999 < calendar.year then none
  else some (responseDateText date calendar
    (timeOfDay ((instant - date * (secondsPerDay * ticksPerSecond)) / ticksPerSecond)))

theorem weekdays_length (day : ℤ) : (weekdays.getD (weekday day) []).length = 3 := by
  have hall : ∀ i < 7, (weekdays.getD i []).length = 3 := by decide
  exact hall _ (weekday_lt day)

theorem months_length {month : ℕ} (h : month ≤ 12) (hpos : 0 < month) : (months.getD (month - 1) []).length = 3 := by
  have hall : ∀ i < 12, (months.getD i []).length = 3 := by decide
  exact hall _ (by omega)

theorem months_injective {a b : ℕ} (ha : 0 < a ∧ a ≤ 12) (hb : 0 < b ∧ b ≤ 12)
    (h : months.getD (a - 1) [] = months.getD (b - 1) []) : a = b := by
  have hall : ∀ i < 12, ∀ j < 12, months.getD i [] = months.getD j [] → i = j := by decide
  have hindex := hall _ (by omega) _ (by omega) h
  omega

/-- A text is the date of a second, with its weekday. -/
def NamesSecond (text : Bytes) (second : ℤ) : Prop :=
  ∃ d t, 0 ≤ d.year ∧ d.year ≤ 9999 ∧ text = responseDateText d.dayNumber d t ∧ secondAt d t = second

theorem responseDateText_injective {d e : Date} {t u : TimeOfDay} (hd : 0 ≤ d.year ∧ d.year ≤ 9999)
    (he : 0 ≤ e.year ∧ e.year ≤ 9999) (h : responseDateText d.dayNumber d t = responseDateText e.dayNumber e u) :
    d = e ∧ t = u := by
  have hdays := d.day_le_31
  have hotherDays := e.day_le_31
  have hhours := t.hours_lt
  have hotherHours := u.hours_lt
  have hminutes := t.minutes_lt
  have hotherMinutes := u.minutes_lt
  have hseconds := t.seconds_lt
  have hotherSeconds := u.seconds_lt
  unfold responseDateText at h
  obtain ⟨-,h⟩ := List.append_inj h ((weekdays_length _).trans (weekdays_length _).symm)
  obtain ⟨hday,h⟩ := paddedDecimal_append (by omega) (by omega) (by omega) (List.append_cancel_left h)
  obtain ⟨hmonth,h⟩ := List.append_inj (List.append_cancel_left h)
    ((months_length d.month_le d.month_pos).trans (months_length e.month_le e.month_pos).symm)
  obtain ⟨hyear,h⟩ := paddedDecimal_append (by omega) (by omega) (by omega) (List.append_cancel_left h)
  obtain ⟨hhour,h⟩ := paddedDecimal_append (by omega) (by omega) (by omega) (List.append_cancel_left h)
  obtain ⟨hminute,h⟩ := paddedDecimal_append (by omega) (by omega) (by omega) (List.append_cancel_left h)
  obtain ⟨hsecond,-⟩ := paddedDecimal_append (by omega) (by omega) (by omega) (List.append_cancel_left h)
  constructor
  · apply Date.ext
    · omega
    · exact months_injective ⟨d.month_pos,d.month_le⟩ ⟨e.month_pos,e.month_le⟩ hmonth
    · exact hday
  · exact TimeOfDay.ext hhour hminute hsecond

theorem NamesSecond.unique {text : Bytes} {second other : ℤ} (h : NamesSecond text second)
    (hother : NamesSecond text other) : second = other := by
  obtain ⟨d,t,hlow,hhigh,rfl,rfl⟩ := h
  obtain ⟨e,u,helow,hehigh,htext,rfl⟩ := hother
  obtain ⟨rfl,rfl⟩ := responseDateText_injective ⟨hlow,hhigh⟩ ⟨helow,hehigh⟩ htext
  rfl

theorem responseDateText_length {d : Date} (hlow : 0 ≤ d.year) (hhigh : d.year ≤ 9999) (day : ℤ) (t : TimeOfDay) :
    (responseDateText day d t).length = 29 := by
  have hdays := d.day_le_31
  have hhours := t.hours_lt
  have hminutes := t.minutes_lt
  have hseconds := t.seconds_lt
  have hcomma : (ascii ", ").length = 2 := rfl
  have hspace : (ascii " ").length = 1 := rfl
  have hcolon : (ascii ":").length = 1 := rfl
  have hzone : (ascii " GMT").length = 4 := rfl
  unfold responseDateText
  simp only [List.length_append,weekdays_length,months_length d.month_le d.month_pos,hcomma,hspace,hcolon,hzone]
  rw [paddedDecimal_length (by omega) (by omega),paddedDecimal_length (by omega) (by omega),
    paddedDecimal_length (by omega) (by omega),paddedDecimal_length (by omega) (by omega),
    paddedDecimal_length (by omega) (by omega)]

/-- The text is that of the second in which the instant lies. -/
theorem formatResponseDate_eq {ticksPerSecond : ℕ} (hticks : 0 < ticksPerSecond) (instant : ℤ) :
    formatResponseDate ticksPerSecond instant =
      if InFourDigitYears (instant / ticksPerSecond) then
        some (responseDateText (instant / ticksPerSecond / secondsPerDay)
          (dateOf (instant / ticksPerSecond / secondsPerDay)) (timeOfDay (instant / ticksPerSecond)))
      else none := by
  have hpos : (0 : ℤ) < ticksPerSecond := Int.natCast_pos.mpr hticks
  have hday : instant / (secondsPerDay * ticksPerSecond) = instant / ticksPerSecond / secondsPerDay := by
    rw [mul_comm,Int.ediv_ediv_of_nonneg hpos.le]
  have htime : timeOfDay ((instant - instant / ticksPerSecond / secondsPerDay * (secondsPerDay * ticksPerSecond)) /
      ticksPerSecond) = timeOfDay (instant / ticksPerSecond) := by
    rw [← mul_assoc,Int.sub_mul_ediv_right _ _ hpos.ne',timeOfDay_sub]
  have hyear : ¬ InFourDigitYears (instant / ticksPerSecond) ↔ yearOf (instant / ticksPerSecond / secondsPerDay) < 0 ∨
      9999 < yearOf (instant / ticksPerSecond / secondsPerDay) := by
    rw [inFourDigitYears_iff]
    omega
  unfold formatResponseDate
  dsimp only
  rw [hday,htime,dateOf_year]
  by_cases h : InFourDigitYears (instant / ticksPerSecond)
  · rw [if_pos h,if_neg (fun hout => hyear.mpr hout h)]
  · rw [if_neg h,if_pos (hyear.mp h)]

/-- The text of a year: a negative one keeps its sign behind the filling. -/
def yearText (year : ℤ) : Bytes :=
  setWidth 4 (if year < 0 then char '-' :: toDecimal year.natAbs else toDecimal year.toNat)

/-- `format_timestamp` of a second since 1970. The year goes through the sixteen bits of `std::chrono::year`. -/
def formatTimestamp (value : ℤ) : Bytes :=
  let dayPoint := value / secondsPerDay
  let date := dateOf dayPoint
  let time := timeOfDay (value - dayPoint * secondsPerDay)
  yearText (date.year.bmod (2 ^ 16)) ++ (ascii "-" ++ (paddedDecimal 2 date.month ++ (ascii "-" ++
    (paddedDecimal 2 date.day ++ (ascii "T" ++ (paddedDecimal 2 time.hours ++ (ascii ":" ++
      (paddedDecimal 2 time.minutes ++ (ascii ":" ++ (paddedDecimal 2 time.seconds ++ ascii "Z"))))))))))

end Http
end SpareNode
