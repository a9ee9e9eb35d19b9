import Mathlib.Data.List.TakeWhile
import PathQuery.Value.Sql

/-!
# Decimal numerals

A numeral is an optional sign, digits with an optional point and at least one digit in all, and an
optional exponent. Integers are written as numerals, and finite double-precision numbers are too.
What the reader of numbers takes is a numeral, unless it is a word for a number that is not finite.
-/

namespace PathQuery

namespace Text

/-! ## Numerals -/

def AllDigits (cs : List Char) : Prop :=
  ∀ c ∈ cs, c.isDigit = true

instance (cs : List Char) : Decidable (AllDigits cs) :=
  List.decidableBAll _ cs

inductive IsSign : List Char → Prop where
  | absent : IsSign []
  | plus : IsSign ['+']
  | minus : IsSign ['-']

/-- A point with digits behind it; both may be absent. -/
inductive IsFraction : List Char → List Char → Prop where
  | absent : IsFraction [] []
  | point {ds : List Char} (h : AllDigits ds) : IsFraction ('.' :: ds) ds

inductive IsExponent : List Char → Prop where
  | absent : IsExponent []
  | present {e : Char} {sign ds : List Char} (he : e = 'e' ∨ e = 'E') (hsign : IsSign sign)
    (hds : AllDigits ds) (hne : ds ≠ []) : IsExponent (e :: (sign ++ ds))

/-- Digits with an optional point, at least one digit in all, and an optional exponent. -/
inductive IsUnsigned : List Char → Prop where
  | mk {whole part fraction exponent : List Char} (hwhole : AllDigits whole)
    (hfraction : IsFraction fraction part) (hne : whole ++ part ≠ [])
    (hexponent : IsExponent exponent) : IsUnsigned (whole ++ (fraction ++ exponent))

/-- A finite decimal numeral. -/
inductive IsNumeral : List Char → Prop where
  | mk {sign ds : List Char} (hsign : IsSign sign) (h : IsUnsigned ds) : IsNumeral (sign ++ ds)

variable {cs ds : List Char}

theorem AllDigits.append (h : AllDigits cs) (h' : AllDigits ds) : AllDigits (cs ++ ds) :=
  List.forall_mem_append.2 ⟨h, h'⟩

theorem allDigits_zeros (n : Nat) : AllDigits (List.replicate n '0') := by
  intro c hc
  rw [List.eq_of_mem_replicate hc]
  rfl

theorem allDigits_digits (n : Nat) : AllDigits (digits n) :=
  fun _ => isDigit_of_mem_digits

theorem IsUnsigned.numeral (h : IsUnsigned cs) : IsNumeral cs :=
  .mk .absent h

theorem IsUnsigned.minus (h : IsUnsigned cs) : IsNumeral ('-' :: cs) :=
  .mk .minus h

theorem AllDigits.unsigned (h : AllDigits cs) (hne : cs ≠ []) : IsUnsigned cs := by
  have hall : IsUnsigned (cs ++ ([] ++ [])) := .mk h .absent (by rwa [List.append_nil]) .absent
  rwa [List.append_nil, List.append_nil] at hall

-- Digits on both sides of a point.
theorem AllDigits.unsigned_point (h : AllDigits cs) (h' : AllDigits ds) (hne : cs ≠ []) :
    IsUnsigned (cs ++ '.' :: ds) := by
  have hall : IsUnsigned (cs ++ ('.' :: ds ++ [])) :=
    .mk h (.point h') (List.append_ne_nil_of_left_ne_nil hne _) .absent
  rwa [List.append_nil] at hall

theorem IsUnsigned.exists_digit (h : IsUnsigned cs) : ∃ c ∈ cs, c.isDigit = true := by
  obtain @⟨whole, part, fraction, exponent, hwhole, hfraction, hne, -⟩ := h
  cases whole with
  | cons c whole => exact ⟨c, List.mem_cons_self, hwhole c List.mem_cons_self⟩
  | nil =>
    cases hfraction with
    | absent => exact absurd rfl hne
    | point hpart =>
      cases part with
      | nil => exact absurd rfl hne
      | cons c part => exact ⟨c, by simp, hpart c List.mem_cons_self⟩

/-- No numeral without a digit. -/
theorem IsNumeral.exists_digit (h : IsNumeral cs) : ∃ c ∈ cs, c.isDigit = true := by
  obtain ⟨-, h⟩ := h
  obtain ⟨c, hc, hdigit⟩ := h.exists_digit
  exact ⟨c, List.mem_append_right _ hc, hdigit⟩

/-- An integer is written as a numeral. -/
theorem isNumeral_signed (i : Int) : IsNumeral (signed i) := by
  cases i with
  | ofNat n => exact ((allDigits_digits n).unsigned (digits_ne_nil n)).numeral
  | negSucc n => exact ((allDigits_digits (n + 1)).unsigned (digits_ne_nil (n + 1))).minus

/-! ## Reading -/

theorem allDigits_of_natural? (h : natural? cs ≠ none) : AllDigits cs ∧ cs ≠ [] := by
  unfold natural? at h
  split at h
  · exact absurd rfl h
  next hne =>
    split at h
    next hall => exact ⟨List.all_eq_true.1 hall, hne⟩
    next => exact absurd rfl h

-- The exponent of a numeral is an integer behind its letter.
theorem exists_sign_of_integer? {i : Int} (h : integer? cs = some i) :
    ∃ sign ds, cs = sign ++ ds ∧ IsSign sign ∧ AllDigits ds ∧ ds ≠ [] := by
  unfold integer? at h
  split at h
  next ds =>
    have hds : natural? ds ≠ none := fun hnone => by simp [hnone] at h
    exact ⟨['-'], ds, rfl, .minus, allDigits_of_natural? hds⟩
  next ds =>
    have hds : natural? ds ≠ none := fun hnone => by simp [hnone] at h
    exact ⟨['+'], ds, rfl, .plus, allDigits_of_natural? hds⟩
  next =>
    have hcs : natural? cs ≠ none := fun hnone => by simp [hnone] at h
    exact ⟨[], cs, rfl, .absent, allDigits_of_natural? hcs⟩

end Text

namespace Binary64

open PathQuery.Text

variable {cs ds rest : List Char}

theorem isExponent_of_readExponent {e : Int} (h : readExponent cs = some e) : IsExponent cs := by
  unfold readExponent at h
  split at h
  · exact .absent
  · obtain ⟨sign, ds, rfl, hsign, hds, hne⟩ := exists_sign_of_integer? h
    exact .present (.inl rfl) hsign hds hne
  · obtain ⟨sign, ds, rfl, hsign, hds, hne⟩ := exists_sign_of_integer? h
    exact .present (.inr rfl) hsign hds hne
  · cases h

theorem allDigits_spanDigits (cs : List Char) : AllDigits (spanDigits cs).1 :=
  fun _ hc => List.mem_takeWhile_imp hc

theorem spanDigits_append (cs : List Char) : (spanDigits cs).1 ++ (spanDigits cs).2 = cs :=
  List.takeWhile_append_dropWhile

-- What the fraction leaves is behind a point and digits, or all of the text.
theorem exists_fraction (cs : List Char) :
    ∃ fraction, IsFraction fraction (readFraction cs).1 ∧ fraction ++ (readFraction cs).2 = cs := by
  unfold readFraction
  split
  next cs => exact ⟨'.' :: (spanDigits cs).1, .point (allDigits_spanDigits cs),
      congrArg ('.' :: ·) (spanDigits_append cs)⟩
  next => exact ⟨[], .absent, rfl⟩

-- An unsigned numeral begins with a digit or a point.
theorem exists_head (h : IsUnsigned cs) :
    ∃ c rest, cs = c :: rest ∧ (c.isDigit = true ∨ c = '.') := by
  obtain @⟨whole, part, fraction, exponent, hwhole, hfraction, hne, -⟩ := h
  cases whole with
  | cons c whole => exact ⟨c, _, rfl, .inl (hwhole c List.mem_cons_self)⟩
  | nil =>
    cases hfraction with
    | absent => exact absurd rfl hne
    | point => exact ⟨'.', _, rfl, .inr rfl⟩

theorem isUnsigned_of_finite? {l : Literal} (h : finite? cs = some l) : IsUnsigned cs := by
  unfold finite? at h
  dsimp only at h
  split at h
  · cases h
  next hne =>
    obtain ⟨e, he, -⟩ := Option.map_eq_some_iff.1 h
    obtain ⟨fraction, hfraction, happend⟩ := exists_fraction (spanDigits cs).2
    rw [← spanDigits_append cs, ← happend]
    exact .mk (allDigits_spanDigits cs) hfraction hne (isExponent_of_readExponent he)

end Binary64

end PathQuery
