import Mathlib.Data.List.DropRight
import PathQuery.Proofs.Calendar.Text
import PathQuery.Value.Convert

/-!
# The four forms of a day with a time

A time stamp, a date and a time joined by a letter, a date and a time behind blanks, and a date
alone: all of them begin with a date that is read alike, and no text has two of them. So the order
in which they are tried does not matter, and a text that is read as a day stands for the midnight of
that day.
-/

namespace PathQuery

open PathQuery.Text

variable {cs rest : List Char} {d : Date} {dt : DateTime}

/-! ## Fields of fixed width -/

theorem readYear_of_readExactly {year : Nat} (h : readExactly 4 cs = some (year, rest)) :
    readYear cs = some ((year : Int), rest) := by
  obtain ⟨c, cs, rfl, hc, hdigits⟩ := exists_of_readExactly h
  rw [readYear_of_isDigit hc, hdigits, Option.map_some]

theorem readField_of_readExactly {n : Nat} (h : readExactly 2 cs = some (n, rest)) :
    readField cs = some (n, rest) := by
  obtain ⟨c, cs, rfl, hc, hdigits⟩ := exists_of_readExactly h
  rw [readField, skipBlanks_of_isDigit hc, hdigits]

-- A field begins with a digit or a blank.
theorem readField_cons_eq_none {c : Char} (hblank : isBlank c = false)
    (hdigit : c.isDigit = false) : readField (c :: cs) = none := by
  rw [readField, skipBlanks_cons hblank, readDigits, digitRun, hdigit, if_neg Bool.false_ne_true]

theorem readTime_cons_eq_none {c : Char} (hblank : isBlank c = false)
    (hdigit : c.isDigit = false) : readTime (c :: cs) = none := by
  rw [readTime, readField_cons_eq_none hblank hdigit]
  rfl

theorem readField_skipBlanks (cs : List Char) : readField (skipBlanks cs) = readField cs :=
  congrArg (readDigits 2) (List.dropWhile_idempotent isBlank cs)

theorem readTime_skipBlanks (cs : List Char) : readTime (skipBlanks cs) = readTime cs := by
  rw [readTime, readTime, readField_skipBlanks]

theorem whole?_eq_some_iff {α : Type} {r : Option (α × List Char)} {a : α} :
    whole? r = some a ↔ r = some (a, []) := by
  unfold whole?
  split
  next => simp
  next hne =>
    refine iff_of_false nofun fun heq => hne a ?_
    exact heq

/-! ## Forms -/

theorem Date.read?_eq_some_iff : Date.read? cs = some d ↔ readDate cs = some (d, []) :=
  whole?_eq_some_iff

theorem expect_eq_some_iff {c : Char} : expect c cs = some rest ↔ cs = c :: rest := by
  cases cs with
  | nil => exact iff_of_false nofun nofun
  | cons d ds =>
    rw [expect, Option.ite_none_right_eq_some, Option.some.injEq, List.cons.injEq]

namespace DateTime

theorem readJoined?_eq_some_iff :
    readJoined? cs = some dt ↔
      ∃ rest, readDate cs = some (dt.date, 'T' :: rest) ∧
        readTime rest = some (dt.time, []) := by
  simp only [readJoined?, Option.bind_eq_bind, Option.bind_eq_some_iff, Prod.exists,
    expect_eq_some_iff, whole?_eq_some_iff]
  constructor
  · rintro ⟨day, _, hdate, rest, rfl, time, htime, ⟨⟩⟩
    exact ⟨rest, hdate, htime⟩
  · rintro ⟨rest, hdate, htime⟩
    exact ⟨dt.date, _, hdate, rest, rfl, dt.time, htime, rfl⟩

theorem readSpaced?_eq_some_iff :
    readSpaced? cs = some dt ↔
      ∃ rest, readDate cs = some (dt.date, rest) ∧
        readTime rest = some (dt.time, []) := by
  simp only [readSpaced?, Option.bind_eq_bind, Option.bind_eq_some_iff, Prod.exists,
    whole?_eq_some_iff, readTime_skipBlanks]
  constructor
  · rintro ⟨day, rest, hdate, time, htime, ⟨⟩⟩
    exact ⟨rest, hdate, htime⟩
  · rintro ⟨rest, hdate, htime⟩
    exact ⟨dt.date, rest, hdate, dt.time, htime, rfl⟩

theorem exists_of_readStamp? (h : readStamp? cs = some dt) :
    ∃ day rest rest' time offset, readDate cs = some (day, rest) ∧
      readSeparator rest = some rest' ∧ readTime rest' = some (time, offset) ∧ offset ≠ [] := by
  obtain ⟨⟨year, cs₁⟩, hyear, h⟩ := Option.bind_eq_some_iff.1 h
  obtain ⟨cs₂, hdash, h⟩ := Option.bind_eq_some_iff.1 h
  obtain ⟨⟨month, cs₃⟩, hmonth, h⟩ := Option.bind_eq_some_iff.1 h
  obtain ⟨cs₄, hdash', h⟩ := Option.bind_eq_some_iff.1 h
  obtain ⟨⟨day, rest⟩, hday, h⟩ := Option.bind_eq_some_iff.1 h
  obtain ⟨rest', hseparator, h⟩ := Option.bind_eq_some_iff.1 h
  obtain ⟨⟨hour, cs₅⟩, hhour, h⟩ := Option.bind_eq_some_iff.1 h
  obtain ⟨cs₆, hcolon, h⟩ := Option.bind_eq_some_iff.1 h
  obtain ⟨⟨minute, cs₇⟩, hminute, h⟩ := Option.bind_eq_some_iff.1 h
  obtain ⟨cs₈, hcolon', h⟩ := Option.bind_eq_some_iff.1 h
  obtain ⟨⟨second, cs₉⟩, hsecond, h⟩ := Option.bind_eq_some_iff.1 h
  obtain ⟨⟨nano, offset⟩, hnano, h⟩ := Option.bind_eq_some_iff.1 h
  obtain ⟨minutes, hoffset, h⟩ := Option.bind_eq_some_iff.1 h
  obtain ⟨date, hdate, h⟩ := Option.bind_eq_some_iff.1 h
  obtain ⟨time, htime, -⟩ := Option.bind_eq_some_iff.1 h
  refine ⟨date, rest, rest', time, offset, ?_, hseparator, ?_, ?_⟩
  · simp only [readDate, Option.bind_eq_bind, Option.bind_some, readYear_of_readExactly hyear,
      hdash, readField_of_readExactly hmonth, hdash', readField_of_readExactly hday, hdate]
    rfl
  · simp only [readTime, Option.bind_eq_bind, Option.bind_some, readField_of_readExactly hhour,
      hcolon, readField_of_readExactly hminute, hcolon', readField_of_readExactly hsecond, hnano,
      htime]
    rfl
  · rintro rfl
    cases hoffset

/-! ## No text has two forms -/

-- The letter before a joined time is none that a time begins with, unlike the space.
theorem offset_eq_nil {rest' offset : List Char} {time time' : TimeOfDay}
    (hseparator : readSeparator rest = some rest') (htime : readTime rest' = some (time, offset))
    (hwhole : readTime rest = some (time', [])) : offset = [] := by
  unfold readSeparator at hseparator
  split at hseparator
  next =>
    rw [readTime_cons_eq_none (by decide) (by decide)] at hwhole
    cases hwhole
  next =>
    rw [readTime_cons_eq_none (by decide) (by decide)] at hwhole
    cases hwhole
  next =>
    cases hseparator
    have hblank : skipBlanks (' ' :: rest') = skipBlanks rest' := rfl
    rw [← readTime_skipBlanks, hblank, readTime_skipBlanks, htime] at hwhole
    exact congrArg Prod.snd (Option.some.inj hwhole)
  next => cases hseparator

/-- A text whose date is not followed by a time and an offset is no time stamp. -/
theorem readStamp?_eq_none (hdate : readDate cs = some (d, rest))
    (h : ∀ rest' time offset, readSeparator rest = some rest' →
      readTime rest' = some (time, offset) → offset = []) : readStamp? cs = none := by
  refine Option.eq_none_iff_forall_ne_some.2 fun dt hstamp => ?_
  obtain ⟨day, stampRest, rest', time, offset, hday, hseparator, htime, hne⟩ :=
    exists_of_readStamp? hstamp
  cases hdate.symm.trans hday
  exact hne (h rest' time offset hseparator htime)

theorem readJoined?_eq_none (hdate : readDate cs = some (d, rest))
    (h : ∀ rest', rest ≠ 'T' :: rest') : readJoined? cs = none := by
  refine Option.eq_none_iff_forall_ne_some.2 fun dt hjoined => ?_
  obtain ⟨rest', hday, -⟩ := readJoined?_eq_some_iff.1 hjoined
  cases hdate.symm.trans hday
  exact h rest' rfl

/-- A date and a time joined by a letter are no time stamp. -/
theorem readStamp?_eq_none_of_joined (h : readJoined? cs = some dt) : readStamp? cs = none := by
  obtain ⟨rest, hdate, htime⟩ := readJoined?_eq_some_iff.1 h
  refine readStamp?_eq_none hdate fun rest' time offset hseparator hstamp => ?_
  cases hseparator
  rw [htime] at hstamp
  cases hstamp
  rfl

/-- A date and a time behind blanks are neither a time stamp nor joined by a letter. -/
theorem eq_none_of_spaced (h : readSpaced? cs = some dt) :
    readStamp? cs = none ∧ readJoined? cs = none := by
  obtain ⟨rest, hdate, htime⟩ := readSpaced?_eq_some_iff.1 h
  refine ⟨readStamp?_eq_none hdate fun _ _ _ hseparator hstamp =>
    offset_eq_nil hseparator hstamp htime, readJoined?_eq_none hdate ?_⟩
  rintro rest' rfl
  rw [readTime_cons_eq_none (by decide) (by decide)] at htime
  cases htime

/-- No time stands in a text that is read as a date. -/
theorem eq_none_of_date (h : Date.read? cs = some d) :
    readStamp? cs = none ∧ readJoined? cs = none ∧ readSpaced? cs = none := by
  have hdate := Date.read?_eq_some_iff.1 h
  refine ⟨readStamp?_eq_none hdate nofun, readJoined?_eq_none hdate nofun,
    Option.eq_none_iff_forall_ne_some.2 fun dt hspaced => ?_⟩
  obtain ⟨rest, hday, htime⟩ := readSpaced?_eq_some_iff.1 hspaced
  cases hdate.symm.trans hday
  cases htime

/-- A text is read as a day with a time if it has one of the four forms, in whatever order they are
tried. -/
theorem read?_eq_some_iff :
    read? cs = some dt ↔
      readStamp? cs = some dt ∨ readJoined? cs = some dt ∨ readSpaced? cs = some dt ∨
        ∃ d, Date.read? cs = some d ∧ d.atMidnight = dt := by
  simp only [read?, Option.orElse_eq_some, Option.map_eq_some_iff]
  constructor
  · rintro (hstamp | ⟨-, hjoined | ⟨-, hspaced | ⟨-, hdate⟩⟩⟩)
    · exact .inl hstamp
    · exact .inr (.inl hjoined)
    · exact .inr (.inr (.inl hspaced))
    · exact .inr (.inr (.inr hdate))
  · rintro (hstamp | hjoined | hspaced | ⟨d, hdate, hmidnight⟩)
    · exact .inl hstamp
    · exact .inr ⟨readStamp?_eq_none_of_joined hjoined, .inl hjoined⟩
    · obtain ⟨hstamp, hjoined⟩ := eq_none_of_spaced hspaced
      exact .inr ⟨hstamp, .inr ⟨hjoined, .inl hspaced⟩⟩
    · obtain ⟨hstamp, hjoined, hspaced⟩ := eq_none_of_date hdate
      exact .inr ⟨hstamp, .inr ⟨hjoined, .inr ⟨hspaced, d, hdate, hmidnight⟩⟩⟩

/-- A day with a time reads back as it was written. -/
theorem read?_text (dt : DateTime) : read? dt.text = some dt :=
  read?_eq_some_iff.2 (.inr (.inl dt.readJoined?_text))

end DateTime

/-! ## Days as values -/

namespace Value

variable {s : String}

-- A text is not null, so it is read as the type.
theorem convert_string (s : String) (t : Scalar) :
    (Value.string s).convert t = (Value.string s).readAs? t :=
  rfl

theorem convert_string_date :
    (Value.string s).convert .date = some (.date d) ↔ Date.read? s.toList = some d := by
  simp only [convert_string, readAs?, asDate?, Option.map_eq_some_iff, Value.date.injEq,
    exists_eq_right]

theorem convert_string_dateTime :
    (Value.string s).convert .dateTime = some (.dateTime dt) ↔
      DateTime.read? s.toList = some dt := by
  simp only [convert_string, readAs?, asDateTime?, Option.map_eq_some_iff, Value.dateTime.injEq,
    exists_eq_right]

theorem convert_midnight (d : Date) :
    (Value.dateTime d.atMidnight).convert .date = some (.date d) :=
  rfl

/-- A text that becomes a day has none of the forms with a time, and becomes the midnight of that
day where a time is asked for too, as the day itself does; the midnight becomes the day again. -/
theorem day_at_midnight (h : (Value.string s).convert .date = some (.date d)) :
    (DateTime.readStamp? s.toList = none ∧ DateTime.readJoined? s.toList = none ∧
        DateTime.readSpaced? s.toList = none) ∧
      (Value.string s).convert .dateTime = some (.dateTime ⟨d, .midnight⟩) ∧
      (Value.date d).convert .dateTime = some (.dateTime ⟨d, .midnight⟩) ∧
      (Value.dateTime ⟨d, .midnight⟩).convert .date = some (.date d) := by
  have hdate := convert_string_date.1 h
  refine ⟨DateTime.eq_none_of_date hdate, convert_string_dateTime.2 ?_, rfl, convert_midnight d⟩
  exact DateTime.read?_eq_some_iff.2 (.inr (.inr (.inr ⟨d, hdate, rfl⟩)))

-- A year before the calendar's first, behind blanks, with blanks before a month of one digit.
theorem day_at_midnight_blanks :
    (Value.string " -0044- 3-15").convert .date = some (.date ⟨-44, 3, 15, by decide⟩) ∧
      (Value.string " -0044- 3-15").convert .dateTime =
        some (.dateTime ⟨⟨-44, 3, 15, by decide⟩, .midnight⟩) := by
  have hdate : (Value.string " -0044- 3-15").convert .date =
      some (.date ⟨-44, 3, 15, by decide⟩) := by
    decide
  exact ⟨hdate, (day_at_midnight hdate).2.1⟩

end Value

end PathQuery
