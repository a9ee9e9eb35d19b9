import PathQuery.Calendar.Text
import PathQuery.Proofs.Digits

/-!
# Dates and times read back

A field of a date or a time is written with as many digits as its reader takes at most, and a year
of more digits behind a sign. So each field is read up to where it ends, and a date, a time of day
and both together read back as they were written.
-/

namespace PathQuery

open PathQuery.Text

variable {cs ds rest : List Char}

/-! ## Fields -/

@[simp]
theorem expect_cons (c : Char) (cs : List Char) : expect c (c :: cs) = some cs :=
  if_pos rfl

theorem skipBlanks_padded (width n : Nat) (rest : List Char) :
    skipBlanks (padded width n ++ rest) = padded width n ++ rest := by
  obtain ⟨d, ds, hds, hd⟩ := exists_padded width n
  rw [hds]
  exact skipBlanks_of_isDigit hd

theorem readField_padded {n : Nat} (h : n < 100) :
    readField (padded 2 n ++ rest) = some (n, rest) := by
  rw [readField, skipBlanks_padded, readDigits_padded (by decide) h]

/-- A year without a sign has at most four digits. -/
theorem readYear_of_isDigit {c : Char} (h : c.isDigit = true) :
    readYear (c :: cs) = (readDigits 4 (c :: cs)).map fun p => ((p.1 : Int), p.2) := by
  rw [readYear, skipBlanks_of_isDigit h]
  split
  next heq => cases heq; exact absurd h (by decide)
  next heq => cases heq; exact absurd h (by decide)
  next => rfl

theorem readYear_minus (cs : List Char) :
    readYear ('-' :: cs) = (readDigits cs.length cs).map fun p => (-(p.1 : Int), p.2) :=
  rfl

theorem readYear_plus (cs : List Char) :
    readYear ('+' :: cs) = (readDigits cs.length cs).map fun p => ((p.1 : Int), p.2) :=
  rfl

-- All digits behind a sign belong to the year.
theorem readDigits_padded_of_stops {width n : Nat} (hrest : Stops rest) :
    readDigits (padded width n ++ rest).length (padded width n ++ rest) = some (n, rest) := by
  have hle : (padded width n).length ≤ (padded width n ++ rest).length := by
    rw [List.length_append]
    exact Nat.le_add_right _ _
  rw [(allDigits_padded width n).readDigits (padded_ne_nil width n) hle (.inr hrest),
    digitsValue_padded]

theorem readYear_yearText (year : Int) (hrest : Stops rest) :
    readYear (yearText year ++ rest) = some (year, rest) := by
  unfold yearText
  split
  next hplain =>
    have hyear : ((year.toNat : Nat) : Int) = year := Int.toNat_of_nonneg hplain.1
    have hread : readDigits 4 (padded 4 year.toNat ++ rest) = some (year.toNat, rest) :=
      readDigits_padded (by decide) (by omega)
    obtain ⟨d, ds, hds, hd⟩ := exists_padded 4 year.toNat
    rw [hds, List.cons_append] at hread ⊢
    rw [readYear_of_isDigit hd, hread, Option.map_some, hyear]
  next hsigned =>
    split
    next hneg =>
      have hyear : -((year.natAbs : Nat) : Int) = year := by omega
      rw [List.cons_append, readYear_minus, readDigits_padded_of_stops hrest, Option.map_some,
        hyear]
    next hpos =>
      have hyear : ((year.natAbs : Nat) : Int) = year := by omega
      rw [List.cons_append, readYear_plus, readDigits_padded_of_stops hrest, Option.map_some,
        hyear]

/-! ## Dates -/

theorem daysInMonth_le (year : Int) (month : Nat) : daysInMonth year month ≤ 31 := by
  unfold daysInMonth
  cases isLeapYear year <;> split <;> decide

theorem Date.readDate_text (d : Date) (rest : List Char) :
    readDate (d.text ++ rest) = some (d, rest) := by
  obtain ⟨-, hmonth, hday⟩ := d.valid
  have hlast := daysInMonth_le d.year d.month
  have htext : d.text ++ rest = yearText d.year ++ '-' :: (padded 2 d.month ++ '-' ::
      (padded 2 d.day ++ rest)) := by
    simp only [Date.text, List.append_assoc, List.cons_append]
  simp only [readDate, htext, Option.bind_eq_bind, Option.bind_some, expect_cons,
    readYear_yearText d.year (stops_cons (show '-'.isDigit = false by decide)),
    readField_padded (show d.month < 100 by omega), readField_padded (show d.day < 100 by omega),
    Date.of?_self]
  rfl

theorem Date.read?_text (d : Date) : Date.read? d.text = some d := by
  have hread := d.readDate_text []
  rw [List.append_nil] at hread
  rw [Date.read?, hread]
  rfl

/-! ## Times of day -/

theorem readDecimals_padded {width n : Nat} (hpos : 0 < width) (hwidth : width ≤ 9)
    (h : n < 10 ^ width) :
    readDecimals ('.' :: padded width n) = some (n * 10 ^ (9 - width), []) := by
  have hlen := length_padded hpos h
  have hrun : digitRun 9 (padded width n ++ []) = (padded width n, []) :=
    (allDigits_padded width n).digitRun (hlen.trans_le hwidth) (.inr stops_nil)
  rw [List.append_nil] at hrun
  simp only [readDecimals, hrun]
  split
  next heq => exact absurd (congrArg Prod.fst heq) (padded_ne_nil width n)
  next heq =>
    cases heq
    rw [digitsValue_padded, hlen]
    rfl

/-- The zeros that are left out at the end of the decimals come back. -/
theorem readDecimals_decimalsText {nano : Nat} (h : nano < 1000000000) :
    readDecimals (decimalsText nano) = some (nano, []) := by
  unfold decimalsText
  split
  next hzero => rw [hzero]; rfl
  split
  next hmilli =>
    rw [readDecimals_padded (by decide) (by decide) (by omega)]
    congr 2
    omega
  split
  next hmicro =>
    rw [readDecimals_padded (by decide) (by decide) (by omega)]
    congr 2
    omega
  next => rw [readDecimals_padded (by decide) (by decide) h, Nat.sub_self, pow_zero, mul_one]

/-- A clock that shows the time shows second 60 in a leap second. -/
theorem TimeOfDay.ofClock?_self (t : TimeOfDay) :
    TimeOfDay.ofClock? t.hour t.minute (t.second + t.nano / 1000000000) (t.nano % 1000000000) =
      some t := by
  obtain ⟨-, -, hsecond, hnano, hleap⟩ := t.valid
  have hself := t.of?_self
  unfold ofClock?
  by_cases hextra : 1000000000 ≤ t.nano
  · have hshown : t.second + t.nano / 1000000000 = 60 := by have := hleap hextra; omega
    have hrest : t.nano % 1000000000 + 1000000000 = t.nano := by omega
    rw [if_pos hshown, hrest, ← hleap hextra, hself]
  · have hshown : t.second + t.nano / 1000000000 = t.second := by omega
    have hrest : t.nano % 1000000000 = t.nano := by omega
    rw [hshown, hrest, if_neg (by omega), if_pos (by omega), hself]

theorem TimeOfDay.readTime_text (t : TimeOfDay) : readTime t.text = some (t, []) := by
  obtain ⟨hhour, hminute, hsecond, hnano, -⟩ := t.valid
  have hshown : t.second + t.nano / 1000000000 < 100 := by omega
  simp only [readTime, TimeOfDay.text, Option.bind_eq_bind, Option.bind_some, expect_cons,
    readField_padded (show t.hour < 100 by omega), readField_padded (show t.minute < 100 by omega),
    readField_padded hshown, readDecimals_decimalsText (Nat.mod_lt t.nano (by decide)),
    TimeOfDay.ofClock?_self]
  rfl

/-! ## Days with times -/

theorem DateTime.readJoined?_text (dt : DateTime) : readJoined? dt.text = some dt := by
  simp only [readJoined?, DateTime.text, Date.readDate_text, TimeOfDay.readTime_text,
    Option.bind_eq_bind, Option.bind_some, expect_cons, whole?]
  rfl

end PathQuery
