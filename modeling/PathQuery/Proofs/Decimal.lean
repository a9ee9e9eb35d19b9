import PathQuery.Proofs.Binary64
import PathQuery.Proofs.Digits
import PathQuery.Value.Convert

/-!
# Values as decimals

The reader of numbers takes exactly the numerals and the words for numbers that are not finite. A
number becomes the decimal that it is written as, if it is finite. A text becomes the decimal that
is left of it without the blanks at its ends, if the reader takes that: so a word becomes a decimal
although it is no numeral.
-/

namespace PathQuery

open PathQuery.Text

namespace Binary64

variable {cs ds rest : List Char}

/-! ## Numerals are read -/

theorem spanDigits_eq (h : AllDigits ds) (hrest : Stops rest) :
    spanDigits (ds ++ rest) = (ds, rest) := by
  unfold spanDigits
  rw [List.takeWhile_append_of_pos h, List.dropWhile_append_of_pos h]
  cases rest with
  | nil => rw [List.takeWhile_nil, List.append_nil, List.dropWhile_nil]
  | cons c rest =>
    have hc : ¬ c.isDigit = true := by rw [hrest c rfl]; exact Bool.false_ne_true
    rw [List.takeWhile_cons_of_neg hc, List.append_nil, List.dropWhile_cons_of_neg hc]

-- An exponent begins with its letter, so that neither digits nor a point go on into it.
theorem stops_exponent (h : IsExponent cs) : Stops cs := by
  cases h with
  | absent => exact stops_nil
  | present he => rcases he with rfl | rfl <;> exact stops_cons (by decide)

theorem readFraction_exponent (h : IsExponent cs) : readFraction cs = ([], cs) := by
  cases h with
  | absent => rfl
  | present he => rcases he with rfl | rfl <;> rfl

theorem exists_integer? {sign : List Char} (hsign : IsSign sign) (h : AllDigits ds)
    (hne : ds ≠ []) : ∃ i, integer? (sign ++ ds) = some i := by
  cases hsign with
  | absent => exact ⟨_, h.integer? hne⟩
  | plus => exact ⟨_, congrArg (Option.map Int.ofNat) (h.natural? hne)⟩
  | minus => exact ⟨-(digitsValue ds : Int), by simp [integer?, h.natural? hne]⟩

theorem exists_readExponent (h : IsExponent cs) : ∃ e, readExponent cs = some e := by
  cases h with
  | absent => exact ⟨0, rfl⟩
  | present he hsign hds hne =>
    obtain ⟨i, hi⟩ := exists_integer? hsign hds hne
    rcases he with rfl | rfl <;> exact ⟨i, hi⟩

theorem exists_finite? (h : IsUnsigned cs) : ∃ l, finite? cs = some l := by
  obtain @⟨whole, part, fraction, exponent, hwhole, hfraction, hne, hexponent⟩ := h
  obtain ⟨e, he⟩ := exists_readExponent hexponent
  -- the reader finds the parts that the numeral was made from
  have hread : (spanDigits (whole ++ (fraction ++ exponent))).1 = whole ∧
      readFraction (spanDigits (whole ++ (fraction ++ exponent))).2 = (part, exponent) := by
    cases hfraction with
    | absent =>
      rw [List.nil_append, spanDigits_eq hwhole (stops_exponent hexponent)]
      exact ⟨rfl, readFraction_exponent hexponent⟩
    | point hpart =>
      rw [List.cons_append, spanDigits_eq hwhole (stops_cons (by decide))]
      exact ⟨rfl, spanDigits_eq hpart (stops_exponent hexponent)⟩
  refine ⟨.finite (digitsValue (whole ++ part)) (e - part.length), ?_⟩
  unfold finite?
  dsimp only
  rw [hread.1, hread.2, if_neg hne, he, Option.map_some]

-- No unsigned numeral begins with a sign.
theorem readSign_append {sign : List Char} (hsign : IsSign sign) (h : IsUnsigned cs) :
    (readSign (sign ++ cs)).2 = cs := by
  cases hsign with
  | plus => rfl
  | minus => rfl
  | absent =>
    obtain ⟨c, rest, rfl, hc⟩ := exists_head h
    have hminus : c ≠ '-' := by rintro rfl; exact absurd hc (by decide)
    have hplus : c ≠ '+' := by rintro rfl; exact absurd hc (by decide)
    rw [List.nil_append, readSign_cons hminus hplus]

theorem isSome_read? (cs : List Char) :
    (read? cs).isSome = (literal? (readSign cs).2).isSome :=
  Option.isSome_map

theorem isSome_read?_of_isNumeral (h : IsNumeral cs) : (read? cs).isSome = true := by
  obtain ⟨hsign, hunsigned⟩ := h
  obtain ⟨l, hl⟩ := exists_finite? hunsigned
  rw [isSome_read?, readSign_append hsign hunsigned]
  unfold literal?
  dsimp only
  split
  · rfl
  · split
    · rfl
    · rw [hl, Option.isSome_some]

theorem isSome_read?_of_isWord (h : IsWord cs) : (read? cs).isSome = true := by
  simp only [IsWord, List.mem_cons, List.not_mem_nil, or_false, ← or_assoc] at h
  rw [isSome_read?]
  unfold literal?
  dsimp only
  split
  · rfl
  next hinf => rw [if_pos (h.resolve_left hinf), Option.isSome_some]

/-- The reader of numbers takes numerals and words, and nothing else. -/
theorem isSome_read?_iff : (read? cs).isSome = true ↔ IsNumeral cs ∨ IsWord cs := by
  constructor
  · intro h
    obtain ⟨f, hf⟩ := Option.isSome_iff_exists.1 h
    by_cases hword : IsWord cs
    · exact .inr hword
    · exact .inl (isNumeral_of_read? hf hword)
  · rintro (hnumeral | hword)
    · exact isSome_read?_of_isNumeral hnumeral
    · exact isSome_read?_of_isWord hword

end Binary64

/-! ## Conversions -/

namespace Value

variable {v : Value} {s t : String} {f : Binary64}

theorem isNumeral_integerText (i : Int) : IsNumeral (integerText i).toList := by
  rw [integerText, String.toList_ofList]
  exact isNumeral_signed i

theorem convert_decimal_eq_some_iff :
    v.convert .decimal = some (.decimal t) ↔ v.asDecimal? = some t := by
  cases v <;> simp [convert, isNull, readAs?, asDecimal?]

/-- A text becomes what is left of it without the blanks at its ends, if that is a numeral or a
word. -/
theorem convert_string_decimal :
    (Value.string s).convert .decimal = some (.decimal t) ↔
      t.toList = trim s.toList ∧ (IsNumeral t.toList ∨ Binary64.IsWord t.toList) := by
  rw [convert_decimal_eq_some_iff, asDecimal?, numeral?, Option.ite_none_right_eq_some,
    Option.some.injEq, Binary64.isSome_read?_iff]
  constructor
  · rintro ⟨h, rfl⟩
    rw [String.toList_ofList]
    exact ⟨rfl, h⟩
  · rintro ⟨heq, h⟩
    rw [← heq]
    exact ⟨h, String.ofList_toList⟩

/-- A number becomes its numeral if it is finite. -/
theorem convert_float64_decimal :
    (Value.float64 f).convert .decimal = some (.decimal t) ↔
      f.isFinite = true ∧ String.ofList f.display = t := by
  rw [convert_decimal_eq_some_iff, asDecimal?, Option.ite_none_right_eq_some, Option.some.injEq]

theorem convert_float64_eq_none :
    (Value.float64 f).convert .decimal = none ↔ f.isFinite = false := by
  have hconvert : (Value.float64 f).convert .decimal = (Value.float64 f).asDecimal?.map .decimal :=
    rfl
  rw [hconvert, Option.map_eq_none_iff, asDecimal?, ite_eq_right_iff, Bool.eq_false_iff]
  simp only [reduceCtorEq, imp_false, ne_eq]

/-- What a value other than a decimal becomes as a decimal is a numeral, unless the value is a text
that is a word for a number that is not finite. A text becomes what is left of it without the blanks
at its ends, if that is a numeral or such a word, and a number is refused exactly if it is not
finite. -/
theorem converted_decimal (hv : v.scalar? ≠ some .decimal) :
    (∀ t : String, v.convert .decimal = some (.decimal t) →
        (IsNumeral t.toList ↔ ¬ ∃ s, v = .string s ∧ Binary64.IsWord (trim s.toList))) ∧
      (∀ s : String, v = .string s → ∀ t, v.convert .decimal = some (.decimal t) ↔
        t.toList = trim s.toList ∧ (IsNumeral t.toList ∨ Binary64.IsWord t.toList)) ∧
      ∀ f : Binary64, v = .float64 f → (v.convert .decimal = none ↔ f.isFinite = false) := by
  refine ⟨fun t h => ?_, ?_, ?_⟩
  · cases v with
    | int32 i =>
      obtain rfl := Option.some.inj (convert_decimal_eq_some_iff.1 h)
      exact iff_of_true (isNumeral_integerText _) nofun
    | int64 i =>
      obtain rfl := Option.some.inj (convert_decimal_eq_some_iff.1 h)
      exact iff_of_true (isNumeral_integerText _) nofun
    | float64 f =>
      obtain ⟨hfinite, rfl⟩ := convert_float64_decimal.1 h
      have hnumeral := Binary64.isNumeral_display hfinite
      exact iff_of_true (by rwa [String.toList_ofList]) nofun
    | string s =>
      obtain ⟨htrim, h⟩ := convert_string_decimal.1 h
      constructor
      · rintro hnumeral ⟨_, ⟨⟩, hword⟩
        exact Binary64.not_isNumeral_of_isWord hword (htrim ▸ hnumeral)
      · intro hword
        exact h.resolve_right fun hword' => hword ⟨s, rfl, htrim ▸ hword'⟩
    | decimal d => exact absurd rfl hv
    | _ => cases h
  · rintro s rfl t
    exact convert_string_decimal
  · rintro f rfl
    exact convert_float64_eq_none

-- A numeral between blanks, with a sign, without digits before the point and with an exponent.
theorem converted_decimal_blanks :
    (Value.string "\u2003+.5e-03\n").scalar? ≠ some .decimal ∧
      (Value.string "\u2003+.5e-03\n").convert .decimal = some (.decimal "+.5e-03") ∧
      IsNumeral "+.5e-03".toList := by
  have hscalar : (Value.string "\u2003+.5e-03\n").scalar? ≠ some .decimal := by decide
  have hconvert : (Value.string "\u2003+.5e-03\n").convert .decimal =
      some (.decimal "+.5e-03") := by
    decide
  refine ⟨hscalar, hconvert, ((converted_decimal hscalar).1 _ hconvert).2 ?_⟩
  rintro ⟨_, ⟨⟩, hword⟩
  revert hword
  decide

/-- A number that is not finite is no decimal, but a word for one is, though it is no numeral. -/
theorem convert_nan :
    (Value.string "nan").convert .decimal = some (.decimal "nan") ∧
      ¬ IsNumeral "nan".toList ∧
      (Value.float64 (.nan false)).convert .decimal = none :=
  ⟨by decide, Binary64.not_isNumeral_of_isWord (by decide), by decide⟩

end Value

end PathQuery
