import SpareNode.Http.Response.ResponseDate
import SpareNode.Http.Transport.ResponseHead

/-! # The date of a response

What a response carries as its date is read back as one second, the one in which it was made, and fills exactly the
bytes that the size of a head counts for it.
-/
namespace SpareNode.Http
open Calendar

/-- A byte of a date: no control byte and no line end. -/
theorem responseDateText_value (day : ℤ) {d : Date} (t : TimeOfDay) :
    (responseDateText day d t).all isHttpFieldValueByte = true := by
  have hdigits (width n : ℕ) : (paddedDecimal width n).all isHttpFieldValueByte = true := by
    have hall : ∀ b, isDigit 10 b = true → isHttpFieldValueByte b = true := forall_byte (by decide +kernel)
    rw [List.all_eq_true]
    intro b hb
    exact hall b (List.all_eq_true.mp (paddedDecimal_digits width n) b hb)
  have hweekday : (weekdays.getD (weekday day) []).all isHttpFieldValueByte = true := by
    have hall : ∀ i < 7, (weekdays.getD i []).all isHttpFieldValueByte = true := by decide
    exact hall _ (weekday_lt day)
  have hmonth : (months.getD (d.month - 1) []).all isHttpFieldValueByte = true := by
    have hall : ∀ i < 12, (months.getD i []).all isHttpFieldValueByte = true := by decide
    exact hall _ (by have := d.month_le; have := d.month_pos; omega)
  unfold responseDateText
  simp only [List.all_append,hdigits,hweekday,hmonth,Bool.and_eq_true,true_and]
  decide

section
variable {status : HttpStatusCode} {reasonPhrase : Bytes} {headers : List HttpResponseHeader} {contentLength : ℕ}
  {response : HttpResponse}

/-- The head of a response that carries a date of full length has the size that validation and the writer count. -/
theorem dated_head {text : Bytes} (htext : text.length = 29)
    (h : Created text status reasonPhrase headers contentLength response) :
    predictedHeadSize status reasonPhrase headers contentLength = some (serializeHttpResponseHead response).length ∧
    serializedHeadSize response = some (serializeHttpResponseHead response).length ∧
    (serializeHttpResponseHead response).length ≤ maximumHeadBytes := by
  rw [predictedHeadSize_eq h.checked.1,serializedHeadSize_eq h,serializeHttpResponseHead_length h htext]
  exact ⟨rfl,rfl,h.checked.1.fits⟩

end

/-- Every instant of the years of four digits has a date text, and only those: it is as long as the head's size
counts, it can stand in a field, it names the second of the instant and no other, and a head with it is as long as
its response was validated for. -/
theorem response_date_exact {ticksPerSecond : ℕ} (hticks : 0 < ticksPerSecond) (instant : ℤ) :
    ((formatResponseDate ticksPerSecond instant).isSome ↔ InFourDigitYears (instant / ticksPerSecond)) ∧
    ∀ text, formatResponseDate ticksPerSecond instant = some text →
      (ascii "Date: " ++ text ++ crlf).length = responseDateFieldBytes ∧
      text.all isHttpFieldValueByte = true ∧
      (∀ second, NamesSecond text second ↔ second = instant / ticksPerSecond) ∧
      ∀ status reasonPhrase headers contentLength response,
        Created text status reasonPhrase headers contentLength response →
        predictedHeadSize status reasonPhrase headers contentLength =
          some (serializeHttpResponseHead response).length ∧
        serializedHeadSize response = some (serializeHttpResponseHead response).length ∧
        (serializeHttpResponseHead response).length ≤ maximumHeadBytes := by
  rw [formatResponseDate_eq hticks]
  constructor
  · split
    · rename_i h
      exact iff_of_true rfl h
    · rename_i h
      exact iff_of_false Bool.false_ne_true h
  · intro text htext
    split at htext
    · rename_i hyears
      obtain rfl := Option.some.inj htext
      obtain ⟨hlow,hhigh⟩ := inFourDigitYears_iff.mp hyears
      have hlength : (responseDateText (instant / ticksPerSecond / secondsPerDay)
          (dateOf (instant / ticksPerSecond / secondsPerDay)) (timeOfDay (instant / ticksPerSecond))).length = 29 :=
        responseDateText_length hlow hhigh _ _
      have hnames : NamesSecond (responseDateText (instant / ticksPerSecond / secondsPerDay)
          (dateOf (instant / ticksPerSecond / secondsPerDay)) (timeOfDay (instant / ticksPerSecond)))
          (instant / ticksPerSecond) := by
        refine ⟨_,_,hlow,hhigh,?_,secondAt_eq _⟩
        rw [dayNumber_dateOf]
      refine ⟨?_,responseDateText_value _ _,?_,?_⟩
      · have hname : (ascii "Date: ").length = 6 := rfl
        have hend : crlf.length = 2 := rfl
        rw [List.length_append,List.length_append,hlength,hname,hend]
        rfl
      · intro second
        constructor
        · intro h
          exact h.unique hnames
        · rintro rfl
          exact hnames
      · intro status reasonPhrase headers contentLength response h
        exact dated_head hlength h
    · cases htext

/-- The start of 1970 in nanoseconds. -/
theorem response_date_exact_epoch :
    formatResponseDate 1000000000 999999999 = some (ascii "Thu, 01 Jan 1970 00:00:00 GMT") ∧
    ∀ second, NamesSecond (ascii "Thu, 01 Jan 1970 00:00:00 GMT") second ↔ second = 0 := by
  have hformat : formatResponseDate 1000000000 999999999 = some (ascii "Thu, 01 Jan 1970 00:00:00 GMT") := by
    decide +kernel
  exact ⟨hformat,((response_date_exact (by decide) 999999999).2 _ hformat).2.2.1⟩

end SpareNode.Http
