import PathQuery.Proofs.Numeral

/-!
# The texts of double-precision numbers

A finite number is written as a numeral and one that is not finite as a word. A text that reads as a
number is a numeral or such a word.
-/

namespace PathQuery.Binary64

open PathQuery.Text

variable {f : Binary64} {cs : List Char}

/-! ## Words -/

/-- The text is a word for a number that is not finite, in any case and behind an optional sign. -/
def IsWord (cs : List Char) : Prop :=
  (readSign cs).2.map Char.toLower ∈
    [['i', 'n', 'f'], ['i', 'n', 'f', 'i', 'n', 'i', 't', 'y'], ['n', 'a', 'n']]

instance (cs : List Char) : Decidable (IsWord cs) :=
  inferInstanceAs (Decidable (_ ∈ _))

theorem toLower_of_isDigit {c : Char} (h : c.isDigit = true) : c.toLower = c := by
  simp only [Char.isDigit, Bool.and_eq_true, decide_eq_true_eq] at h
  unfold Char.toLower
  rw [dif_neg]
  intro hupper
  simp only [UInt32.le_iff_toNat_le] at h hupper
  simp at h hupper
  omega

theorem readSign_cons {c : Char} (hminus : c ≠ '-') (hplus : c ≠ '+') :
    readSign (c :: cs) = (false, c :: cs) := by
  unfold readSign
  split
  next heq => cases heq; exact absurd rfl hminus
  next heq => cases heq; exact absurd rfl hplus
  next => rfl

theorem isSign_readSign (cs : List Char) :
    ∃ sign, IsSign sign ∧ sign ++ (readSign cs).2 = cs := by
  unfold readSign
  split
  next cs => exact ⟨['-'], .minus, rfl⟩
  next cs => exact ⟨['+'], .plus, rfl⟩
  next => exact ⟨[], .absent, rfl⟩

-- The letters of words are no digits.
theorem not_isNumeral_of_isWord (h : IsWord cs) : ¬ IsNumeral cs := by
  intro hnumeral
  obtain ⟨c, hc, hdigit⟩ := hnumeral.exists_digit
  obtain ⟨sign, hsign, happend⟩ := isSign_readSign cs
  rw [← happend] at hc
  rcases List.mem_append.1 hc with hc | hc
  · have hnone : sign.any Char.isDigit = false := by
      cases hsign <;> decide
    exact List.any_eq_false.1 hnone c hc hdigit
  · have hmem : c ∈ (readSign cs).2.map Char.toLower :=
      List.mem_map.2 ⟨c, hc, toLower_of_isDigit hdigit⟩
    have hnone : ∀ word ∈ [['i', 'n', 'f'], ['i', 'n', 'f', 'i', 'n', 'i', 't', 'y'],
        ['n', 'a', 'n']], word.any Char.isDigit = false := by
      decide
    exact List.any_eq_false.1 (hnone _ h) c hmem hdigit

/-- What reads as a number is a numeral or a word. -/
theorem isNumeral_of_read? (h : read? cs = some f) (hword : ¬ IsWord cs) : IsNumeral cs := by
  have hread : read? cs = (literal? (readSign cs).2).map (ofLiteral (readSign cs).1) := rfl
  rw [hread] at h
  obtain ⟨l, hl, -⟩ := Option.map_eq_some_iff.1 h
  unfold literal? at hl
  simp only [IsWord, List.mem_cons, List.not_mem_nil, or_false, not_or] at hword
  rw [if_neg (not_or.2 ⟨hword.1, hword.2.1⟩), if_neg hword.2.2] at hl
  obtain ⟨sign, hsign, happend⟩ := isSign_readSign cs
  rw [← happend]
  exact .mk hsign (isUnsigned_of_finite? hl)

/-! ## Display texts -/

theorem Decimal.stripZeros_digits {d : Decimal} (h : AllDigits d.digits) :
    AllDigits d.stripZeros.digits ∧ d.stripZeros.digits ≠ [] := by
  unfold stripZeros
  dsimp only
  split
  next => exact ⟨by decide, by decide⟩
  next hne =>
    refine ⟨fun c hc => h c ?_, fun hnil => hne (List.isEmpty_iff.2 hnil)⟩
    have hsuffix : d.digits.reverse.dropWhile (· == '0') <:+ d.digits.reverse :=
      List.dropWhile_suffix _
    exact List.mem_reverse.1 (hsuffix.subset (List.mem_reverse.1 hc))

theorem shortest_digits (tie : Tie) (f : Binary64) :
    AllDigits (f.shortest tie).digits ∧ (f.shortest tie).digits ≠ [] := by
  unfold shortest
  split
  next => exact ⟨by decide, by decide⟩
  next => exact Decimal.stripZeros_digits (allDigits_digits _)

theorem Decimal.isUnsigned_positional {d : Decimal} (h : AllDigits d.digits)
    (hne : d.digits ≠ []) : IsUnsigned d.positional := by
  unfold positional
  split
  next e _ =>
    exact (h.append (allDigits_zeros e)).unsigned (List.append_ne_nil_of_left_ne_nil hne _)
  next e _ =>
    dsimp only
    split
    next hlt =>
      refine AllDigits.unsigned_point (fun c hc => h c (List.mem_of_mem_take hc))
        (fun c hc => h c (List.mem_of_mem_drop hc)) ?_
      intro hnil
      have hzero := (List.take_eq_nil_iff.1 hnil).resolve_right hne
      omega
    next =>
      have hzero : AllDigits ['0'] := by decide
      exact hzero.unsigned_point ((allDigits_zeros _).append h) (List.cons_ne_nil _ _)

/-- A finite number is written as a numeral. -/
theorem isNumeral_display (h : f.isFinite = true) : IsNumeral f.display := by
  obtain ⟨hdigits, hne⟩ := shortest_digits .away f
  have hunsigned := Decimal.isUnsigned_positional hdigits hne
  rw [display, if_pos h, withMinus]
  split
  · exact hunsigned.minus
  · exact hunsigned.numeral

/-- A number that is not finite is written as a word. -/
theorem isWord_display (h : f.isFinite = false) : IsWord f.display := by
  rw [display, h, if_neg Bool.false_ne_true, withMinus]
  cases f.isNaN <;> cases f.isNegative <;> decide

end PathQuery.Binary64
