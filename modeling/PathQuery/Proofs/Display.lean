import PathQuery.Proofs.Calendar.Forms
import PathQuery.Proofs.Uuid

/-!
# Values read back from their texts

The display text of a truth value, an integer, a day, a day with a time or an identifier becomes
that value again where its type is asked for.
-/

namespace PathQuery

open PathQuery.Text

namespace Text

theorem integer?_signed (i : Int) : integer? (signed i) = some i := by
  cases i with
  | ofNat n =>
    rw [signed, (allDigits_digits n).integer? (digits_ne_nil n), digitsValue_digits]
    rfl
  | negSucc n =>
    rw [signed, integer?, natural?_digits]
    rfl

theorem trim_signed (i : Int) : trim (signed i) = signed i := by
  have hdigits (n : Nat) : ∀ c ∈ digits n, isBlank c = false :=
    fun c hc => isBlank_of_isDigit (isDigit_of_mem_digits hc)
  refine trim_eq_self ?_
  cases i with
  | ofNat n => exact hdigits n
  | negSucc n => exact List.forall_mem_cons.2 ⟨by decide, hdigits (n + 1)⟩

-- Texts that are read back are different for different values.
theorem injective_of_read {α : Type} {read : List Char → Option α} {write : α → List Char}
    (h : ∀ a, read (write a) = some a) : Function.Injective write := by
  intro a b heq
  have hread := h a
  rw [heq, h b] at hread
  exact (Option.some.inj hread).symm

end Text

namespace Value

variable {v : Value} {t : Scalar}

-- The text of an integer has no blanks at its ends and is read as that integer.
theorem integer?_trim_integerText (i : Int) : integer? (trim (integerText i).toList) = some i := by
  rw [integerText, String.toList_ofList, trim_signed, integer?_signed]

/-- The display text is what a value becomes as a text, and it becomes the value again. -/
theorem text_reads_back (ht : v.scalar? = some t)
    (h : t ∈ [Scalar.bool, .int32, .int64, .date, .dateTime, .uuid]) :
    v.convert .string = some (.string v.text) ∧
      (Value.string v.text).convert t = some v := by
  cases v with
  | bool b =>
    cases ht
    cases b <;> decide
  | int32 i =>
    cases ht
    refine ⟨rfl, ?_⟩
    rw [text, convert_string, readAs?, asInt32?, integer?_trim_integerText, Option.bind_some,
      int32?_eq_some_iff.2 rfl, Option.map_some]
  | int64 i =>
    cases ht
    refine ⟨rfl, ?_⟩
    rw [text, convert_string, readAs?, asInt64?, integer?_trim_integerText, Option.bind_some,
      int64?_eq_some_iff.2 rfl, Option.map_some]
  | date d =>
    cases ht
    refine ⟨rfl, convert_string_date.2 ?_⟩
    rw [text, String.toList_ofList, Date.read?_text]
  | dateTime dt =>
    cases ht
    refine ⟨rfl, convert_string_dateTime.2 ?_⟩
    rw [text, String.toList_ofList, DateTime.read?_text]
  | uuid u =>
    cases ht
    refine ⟨rfl, ?_⟩
    rw [text, convert_string, readAs?, asUuid?, String.toList_ofList, Uuid.read?_text,
      Option.map_some]
  | null => cases ht
  | float64 f => cases ht; exact absurd h (by decide)
  | decimal d => cases ht; exact absurd h (by decide)
  | string s => cases ht; exact absurd h (by decide)

/-- Values of one type with equal documents are equal, except for numbers that are not finite, which
all become null. -/
theorem eq_of_json_eq {w : Value} (ht : v.scalar? = w.scalar?)
    (hfinite : ∀ f, v = .float64 f → f.isFinite = true) (h : v.json = w.json) : v = w := by
  cases v with
  | null =>
    cases w with
    | null => rfl
    | _ => cases ht
  | bool b =>
    cases w with
    | bool c => rw [Json.bool.inj h]
    | _ => cases ht
  | int32 i =>
    cases w with
    | int32 j => rw [Int32.toInt_inj.1 (Json.int.inj h)]
    | _ => cases ht
  | int64 i =>
    cases w with
    | int64 j => rw [Int64.toInt_inj.1 (Json.int.inj h)]
    | _ => cases ht
  | float64 f =>
    cases w with
    | float64 g =>
      rw [json, json, if_pos (hfinite f rfl)] at h
      split at h
      next => rw [Json.real.inj h]
      next => cases h
    | _ => cases ht
  | decimal c =>
    cases w with
    | decimal d => exact congrArg decimal (Json.str.inj h)
    | _ => cases ht
  | string r =>
    cases w with
    | string s => exact congrArg string (Json.str.inj h)
    | _ => cases ht
  | date d =>
    cases w with
    | date e =>
      have htext := String.ofList_injective (Json.str.inj h)
      rw [injective_of_read Date.read?_text htext]
    | _ => cases ht
  | dateTime d =>
    cases w with
    | dateTime e =>
      have htext := String.ofList_injective (Json.str.inj h)
      rw [injective_of_read DateTime.read?_text htext]
    | _ => cases ht
  | uuid u =>
    cases w with
    | uuid s =>
      have htext := String.ofList_injective (Json.str.inj h)
      rw [injective_of_read Uuid.read?_text htext]
    | _ => cases ht

/-- Half a microsecond into a leap second at the end of the first day of the calendar. -/
def firstLeapSecond : DateTime :=
  ⟨⟨-262143, 1, 1, by decide⟩, ⟨23, 59, 59, 1000000500, by decide⟩⟩

-- The last field shows the leap second, and the decimals are as many as its nanoseconds need.
theorem text_reads_back_leapSecond :
    (Value.dateTime firstLeapSecond).convert .string =
        some (.string "-262143-01-01T23:59:60.000000500") ∧
      (Value.string "-262143-01-01T23:59:60.000000500").convert .dateTime =
        some (.dateTime firstLeapSecond) := by
  have htext : (Value.dateTime firstLeapSecond).text = "-262143-01-01T23:59:60.000000500" := by
    decide
  have hread := @text_reads_back (.dateTime firstLeapSecond) .dateTime rfl (by decide)
  rwa [htext] at hread

end Value

end PathQuery
