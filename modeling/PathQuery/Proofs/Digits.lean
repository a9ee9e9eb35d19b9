import Mathlib.Tactic.Ring
import PathQuery.Proofs.Numeral
import PathQuery.Text.Blank

/-!
# Digits at the front of a text

A run of digits ends where the text goes on with another character, or where it has as many digits
as asked for. Readers of all digits, of at most so many and of exactly so many then take the same
run. Digits are no blanks and no signs, and zeros before a number do not change it.
-/

namespace PathQuery.Text

variable {cs ds rest : List Char} {c : Char}

/-! ## Digits, blanks and signs -/

theorem isBlank_of_isDigit (h : c.isDigit = true) : isBlank c = false := by
  have hcode : 48 ≤ c.toNat ∧ c.toNat ≤ 57 := by
    simpa [Char.isDigit, UInt32.le_iff_toNat_le] using h
  simp only [isBlank, Bool.or_eq_false_iff, Bool.and_eq_false_iff, decide_eq_false_iff_not,
    beq_eq_false_iff_ne]
  omega

theorem skipBlanks_cons (h : isBlank c = false) : skipBlanks (c :: cs) = c :: cs :=
  List.dropWhile_cons_of_neg (by rw [h]; exact Bool.false_ne_true)

theorem skipBlanks_of_isDigit (h : c.isDigit = true) : skipBlanks (c :: cs) = c :: cs :=
  skipBlanks_cons (isBlank_of_isDigit h)

/-- A text without blanks stays as it is. -/
theorem trim_eq_self (h : ∀ c ∈ cs, isBlank c = false) : trim cs = cs := by
  have hfront (ds : List Char) (hds : ∀ c ∈ ds, isBlank c = false) : skipBlanks ds = ds := by
    cases ds with
    | nil => rfl
    | cons c ds => exact skipBlanks_cons (hds c List.mem_cons_self)
  rw [trim, hfront cs h, hfront cs.reverse fun c hc => h c (List.mem_reverse.1 hc),
    List.reverse_reverse]

theorem AllDigits.natural? (h : AllDigits cs) (hne : cs ≠ []) :
    Text.natural? cs = some (digitsValue cs) := by
  unfold Text.natural?
  split
  · exact absurd rfl hne
  · exact if_pos (List.all_eq_true.2 h)

/-- Digits without a sign are a natural number. -/
theorem AllDigits.integer? (h : AllDigits cs) (hne : cs ≠ []) :
    Text.integer? cs = some (digitsValue cs) := by
  unfold Text.integer?
  split
  next => exact absurd (h '-' List.mem_cons_self) (by decide)
  next => exact absurd (h '+' List.mem_cons_self) (by decide)
  next => rw [h.natural? hne]; rfl

/-! ## Runs -/

/-- The text does not begin with a digit. -/
def Stops (cs : List Char) : Prop :=
  ∀ c ∈ cs.head?, c.isDigit = false

theorem stops_nil : Stops [] :=
  nofun

theorem stops_cons (h : c.isDigit = false) : Stops (c :: cs) := by
  rintro _ ⟨⟩
  exact h

/-- The run takes all the digits at the front, if no digit follows them or they are as many as asked
for. -/
theorem AllDigits.digitRun {most : Nat} (h : AllDigits ds) (hle : ds.length ≤ most)
    (hend : ds.length = most ∨ Stops rest) : Text.digitRun most (ds ++ rest) = (ds, rest) := by
  induction ds generalizing most with
  | nil =>
    cases most with
    | zero => rfl
    | succ most =>
      have hstops := hend.resolve_left (Nat.succ_ne_zero most).symm
      cases rest with
      | nil => rfl
      | cons c rest => rw [List.nil_append, Text.digitRun, hstops c rfl, if_neg Bool.false_ne_true]
  | cons d ds ih =>
    obtain ⟨hd, hds⟩ := List.forall_mem_cons.1 h
    cases most with
    | zero => cases hle
    | succ most =>
      have hend' : ds.length = most ∨ Stops rest := hend.imp_left Nat.succ.inj
      rw [List.cons_append, Text.digitRun, if_pos hd, ih hds (Nat.le_of_succ_le_succ hle) hend']

theorem AllDigits.readDigits {most : Nat} (h : AllDigits ds) (hne : ds ≠ [])
    (hle : ds.length ≤ most) (hend : ds.length = most ∨ Stops rest) :
    Text.readDigits most (ds ++ rest) = some (digitsValue ds, rest) := by
  unfold Text.readDigits
  rw [h.digitRun hle hend]
  cases ds with
  | nil => exact absurd rfl hne
  | cons d ds => rfl

/-- A text that is read as so many digits begins with one, and is read as at most so many too. -/
theorem exists_of_readExactly {width : Nat} {r : Nat × List Char}
    (h : readExactly (width + 1) cs = some r) :
    ∃ c rest, cs = c :: rest ∧ c.isDigit = true ∧ readDigits (width + 1) cs = some r := by
  unfold readExactly at h
  obtain ⟨hlen, heq⟩ := Option.ite_none_right_eq_some.1 h
  obtain rfl := Option.some.inj heq
  cases cs with
  | nil => cases hlen
  | cons c rest =>
    refine ⟨c, rest, rfl, ?_⟩
    by_cases hc : c.isDigit = true
    · refine ⟨hc, ?_⟩
      rw [readDigits, digitRun, if_pos hc]
    · rw [digitRun, if_neg hc] at hlen
      cases hlen

/-! ## Numbers with zeros before them -/

theorem allDigits_padded (width n : Nat) : AllDigits (padded width n) :=
  (allDigits_zeros _).append (allDigits_digits n)

theorem padded_ne_nil (width n : Nat) : padded width n ≠ [] :=
  List.append_ne_nil_of_right_ne_nil _ (digits_ne_nil n)

theorem exists_padded (width n : Nat) :
    ∃ d ds, padded width n = d :: ds ∧ d.isDigit = true := by
  obtain ⟨d, ds, hds⟩ := List.exists_cons_of_ne_nil (padded_ne_nil width n)
  exact ⟨d, ds, hds, allDigits_padded width n d (hds ▸ List.mem_cons_self)⟩

theorem digitsValue_padded (width n : Nat) : digitsValue (padded width n) = n := by
  rw [digitsValue, padded, Nat.ofDigitChars_append, Nat.ofDigitChars_replicate_zero, Nat.mul_zero]
  exact digitsValue_digits n

theorem length_padded {width n : Nat} (hwidth : 0 < width) (h : n < 10 ^ width) :
    (padded width n).length = width := by
  have hle : (digits n).length ≤ width := (Nat.length_toDigits_le_iff (by decide) hwidth).2 h
  rw [padded, List.length_append, List.length_replicate, Nat.sub_add_cancel hle]

/-- A number that fills a field is read from it, whatever follows. -/
theorem readDigits_padded {width n : Nat} (hwidth : 0 < width) (h : n < 10 ^ width) :
    readDigits width (padded width n ++ rest) = some (n, rest) := by
  have hlen := length_padded hwidth h
  rw [(allDigits_padded width n).readDigits (padded_ne_nil width n) hlen.le (.inl hlen),
    digitsValue_padded]

end PathQuery.Text
