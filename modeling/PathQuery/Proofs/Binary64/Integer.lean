import PathQuery.Proofs.Binary64.Value
import PathQuery.Value.Convert

/-!
# Doubles as integers

A double is read as an integer exactly if it is finite and the number that it denotes is that
integer. So it becomes an integer of thirty-two or sixty-four bits if it denotes one, and is refused
otherwise: no number is rounded, cut off at a bound or wrapped around.
-/

namespace PathQuery

namespace Binary64

variable {f : Binary64} {i : ℤ}

theorem withSign_mul (f : Binary64) (m n : ℕ) : f.withSign (m * n) = f.withSign m * n := by
  unfold withSign
  split
  · rw [Nat.cast_mul, neg_mul]
  · rw [Nat.cast_mul]

theorem natAbs_withSign (f : Binary64) (n : ℕ) : (f.withSign n).natAbs = n := by
  unfold withSign
  split
  · rw [Int.natAbs_neg, Int.natAbs_natCast]
  · exact Int.natAbs_natCast n

/-! ## Units -/

theorem one_eq : one = 2 ^ places :=
  Nat.pow_eq

theorem one_pos : 0 < one := by
  rw [one_eq]
  exact Nat.two_pow_pos places

/-- A number is counted in the least subnormal number. -/
theorem value_eq_units (f : Binary64) : f.value = f.withSign f.units / (one : ℚ) := by
  obtain ⟨k, hk⟩ : ∃ k, max f.biased 1 = k + 1 := ⟨max f.biased 1 - 1, by omega⟩
  have hexponent : ((k + 1 : ℕ) : ℤ) - 1075 = (k : ℤ) - places := by
    unfold places
    omega
  rw [value, exponent, units, one_eq, hk, hexponent, Nat.add_sub_cancel, Nat.pow_eq, withSign_mul,
    zpow_sub₀ two_ne_zero, zpow_natCast, zpow_natCast]
  push_cast
  exact (mul_div_assoc _ _ _).symm

theorem value_eq_iff : f.value = i ↔ f.withSign f.units = i * one := by
  have hone : (one : ℚ) ≠ 0 := Nat.cast_ne_zero.2 one_pos.ne'
  rw [value_eq_units, div_eq_iff hone]
  exact_mod_cast Iff.rfl

theorem units_eq_zero_iff : f.units = 0 ↔ f.isZero = true := by
  have hpow : Nat.pow 2 (max f.biased 1 - 1) ≠ 0 := (Nat.two_pow_pos _).ne'
  rw [units, Nat.mul_eq_zero, or_iff_left hpow, significand, isZero, Bool.and_eq_true, beq_iff_eq,
    beq_iff_eq]
  unfold exponentUnit
  split <;> omega

/-! ## Comparison -/

theorem isNaN_of_isFinite (h : f.isFinite = true) : f.isNaN = false := by
  rw [isNaN, beq_eq_false_iff_ne.2 (bne_iff_ne.1 h), Bool.false_and]

theorem isFinite_int64Lower : int64Lower.isFinite = true :=
  isFinite_ofInt (by decide)

theorem isFinite_int64Upper : int64Upper.isFinite = true :=
  isFinite_ofInt (by decide)

theorem value_int64Lower : int64Lower.value = (-9223372036854775808 : ℤ) :=
  (value_ofInt_eq_iff (by decide)).2 ⟨-1, 63, by decide, by decide⟩

theorem value_int64Upper : int64Upper.value = (9223372036854775808 : ℤ) :=
  (value_ofInt_eq_iff (by decide)).2 ⟨1, 63, by decide, by decide⟩

section Compare

variable {g : Binary64} (hf : f.isFinite = true) (hg : g.isFinite = true)

include hf hg

/-- Finite numbers are compared as the numbers that they denote. -/
theorem le_iff : f.le g = true ↔ f.value ≤ g.value := by
  have hone : (0 : ℚ) < one := Nat.cast_pos.2 one_pos
  rw [le, isNaN_of_isFinite hf, isNaN_of_isFinite hg, value_eq_units, value_eq_units,
    div_le_div_iff_of_pos_right hone, Int.cast_le]
  exact decide_eq_true_iff

theorem lt_iff : f.lt g = true ↔ f.value < g.value := by
  have hone : (0 : ℚ) < one := Nat.cast_pos.2 one_pos
  rw [lt, isNaN_of_isFinite hf, isNaN_of_isFinite hg, value_eq_units, value_eq_units,
    div_lt_div_iff_of_pos_right hone, Int.cast_lt]
  exact decide_eq_true_iff

end Compare

/-- The bounds hold for an integer exactly if it has sixty-four bits. -/
theorem bounds_iff (hf : f.isFinite = true) (hi : f.value = i) :
    (int64Lower.le f && f.lt int64Upper) = true ↔ IsInt64 i := by
  rw [Bool.and_eq_true, le_iff isFinite_int64Lower hf, lt_iff hf isFinite_int64Upper,
    value_int64Lower, value_int64Upper, hi, Int.cast_le, Int.cast_lt]
  omega

/-! ## Behind the point -/

-- Only zeros are equal to zero.
theorem equals_zero_iff : f.equals zero = true ↔ f.isNaN = false ∧ f.isZero = true := by
  have hnan : zero.isNaN = false := by decide
  have hzero : zero.withSign zero.units = 0 := by
    rw [units_eq_zero_iff.2 (by decide)]
    rfl
  have hunits : f.withSign f.units = 0 ↔ f.units = 0 := by
    rw [← Int.natAbs_eq_zero, natAbs_withSign]
  rw [equals, hnan, hzero, Bool.not_false, Bool.and_true, Bool.and_eq_true, Bool.not_eq_true',
    beq_iff_eq, hunits, units_eq_zero_iff]

/-- Up to those of infinity, the bits below the sign are zero only for zeros. -/
theorem equals_zero_ofMagnitude {negative : Bool} {magnitude : ℕ} (h : magnitude ≤ infinityBits) :
    (ofMagnitude negative magnitude).equals zero = true ↔ magnitude = 0 := by
  unfold infinityBits exponentUnit at h
  have hmagnitude : magnitude < signUnit := by
    unfold signUnit
    omega
  rw [equals_zero_iff, isNaN, isZero, biased_ofMagnitude hmagnitude,
    fraction_ofMagnitude hmagnitude, Bool.and_eq_false_iff, beq_eq_false_iff_ne,
    bne_eq_false_iff_eq, Bool.and_eq_true, beq_iff_eq, beq_iff_eq]
  unfold exponentUnit
  omega

theorem scaled_neg (n d p : ℕ) : scaled n d (-(p : ℤ)) = (n * 2 ^ p, d) := by
  cases p with
  | zero => rw [pow_zero, Nat.mul_one]; exact congrArg (n, ·) (Nat.mul_one d)
  | succ p => rfl

theorem le_exponentFor (num den : ℕ) : -1074 ≤ exponentFor num den := by
  unfold exponentFor
  exact le_max_right _ _

-- At the least exponent no unit is lost, and above it the exponent is in the bits.
theorem roundedBits_pos {n : ℕ} (hn : n ≠ 0) {e : ℤ} (he : -1074 ≤ e) :
    0 < roundedBits n one e := by
  unfold roundedBits
  rcases he.eq_or_lt with rfl | hlt
  · have hplaces : (-1074 : ℤ) = -(places : ℤ) := by
      unfold places
      rfl
    have hround : roundHalfEven (n * one) one = n := by
      unfold roundHalfEven
      rw [Nat.mul_mod_left, Nat.mul_div_cancel n one_pos, if_pos one_pos]
    rw [hplaces, scaled_neg, ← one_eq]
    dsimp only
    rw [hround]
    exact Nat.add_pos_right _ (Nat.pos_of_ne_zero hn)
  · have hunit : 0 < exponentUnit := by decide
    exact Nat.add_pos_left (Nat.mul_pos (by omega) hunit) _

/-- A number of units is rounded to zero only if it is zero. -/
theorem ofRatio_one {negative : Bool} {n : ℕ} :
    ∃ magnitude ≤ infinityBits, ofRatio negative n one = ofMagnitude negative magnitude ∧
      (magnitude = 0 ↔ n = 0) := by
  by_cases hn : n = 0
  · exact ⟨0, Nat.zero_le _, if_pos hn, iff_of_true rfl hn⟩
  · have hpos := roundedBits_pos hn (le_exponentFor n one)
    have hinfinity : 0 < infinityBits := by decide
    exact ⟨_, Nat.min_le_right _ _, if_neg hn,
      iff_of_false (Nat.lt_min.2 ⟨hpos, hinfinity⟩).ne' hn⟩

/-- Nothing stands behind the point of a finite number if it has no rest. -/
theorem equals_zero_fract (h : f.isFinite = true) :
    f.fract.equals zero = true ↔ f.units % one = 0 := by
  obtain ⟨magnitude, hle, hratio, hzero⟩ :=
    @ofRatio_one (f.isNegative && f.units % one != 0) (f.units % one)
  rw [fract, if_pos h, hratio, equals_zero_ofMagnitude hle, hzero]

theorem isFinite_of_equals_fract (h : f.fract.equals zero = true) : f.isFinite = true := by
  by_contra hinfinite
  rw [fract, if_neg hinfinite] at h
  revert h
  decide

/-! ## Integers -/

/-- The integer that a number denotes, if it is finite and has no fractional part. -/
def toInt? (f : Binary64) : Option ℤ :=
  if f.isFinite = true ∧ f.units % one = 0 then some (f.withSign (f.units / one)) else none

-- A number without a rest is what stands before its point.
theorem value_eq_of_rest (h : f.units % one = 0) : f.value = (f.withSign (f.units / one) : ℤ) := by
  rw [value_eq_iff, ← withSign_mul, Nat.div_mul_cancel (Nat.dvd_of_mod_eq_zero h)]

-- An integer has no rest.
theorem rest_of_value_eq (h : f.value = i) : f.units % one = 0 := by
  have habs := congrArg Int.natAbs (value_eq_iff.1 h)
  rw [natAbs_withSign, Int.natAbs_mul, Int.natAbs_natCast] at habs
  rw [habs]
  exact Nat.mul_mod_left _ _

/-- A number is read as an integer exactly if it is finite and denotes that integer. -/
theorem toInt?_eq_some_iff : f.toInt? = some i ↔ f.isFinite = true ∧ f.value = i := by
  unfold toInt?
  split
  next h =>
    rw [Option.some.injEq, value_eq_of_rest h.2, Int.cast_inj]
    exact (and_iff_right h.1).symm
  next h =>
    exact iff_of_false (Option.some_ne_none i).symm fun hi => h ⟨hi.1, rest_of_value_eq hi.2⟩

-- In range nothing is cut off at the ends.
theorem toInt64_eq (hf : f.isFinite = true) (h : IsInt64 (f.withSign (f.units / one))) :
    f.toInt64 = .ofInt (f.withSign (f.units / one)) := by
  rw [toInt64, isNaN_of_isFinite hf, if_neg Bool.false_ne_true, min_eq_right h.2, max_eq_right h.1]

/-- The guards let through exactly the integers of sixty-four bits, and the cast keeps them. -/
theorem whole?_eq (f : Binary64) : f.whole? = f.toInt?.bind int64? := by
  unfold whole?
  by_cases hwhole : f.fract.equals zero = true
  · have hfinite := isFinite_of_equals_fract hwhole
    have hrest := (equals_zero_fract hfinite).1 hwhole
    have hread : f.toInt? = some (f.withSign (f.units / one)) := if_pos ⟨hfinite, hrest⟩
    have hbounds := bounds_iff hfinite (value_eq_of_rest hrest)
    rw [hwhole, Bool.true_and, hread, Option.bind_some, int64?]
    by_cases hrange : IsInt64 (f.withSign (f.units / one))
    · rw [if_pos (hbounds.2 hrange), if_pos hrange, toInt64_eq hfinite hrange]
    · rw [if_neg (mt hbounds.1 hrange), if_neg hrange]
  · have hnone : f.toInt? = none :=
      if_neg fun h => hwhole ((equals_zero_fract h.1).2 h.2)
    rw [Bool.eq_false_iff.2 hwhole, Bool.false_and, if_neg Bool.false_ne_true, hnone,
      Option.bind_none]

section Narrow

variable {α : Type} {narrow : ℤ → Option α}

/-- What a number becomes where integers are narrowed to those that `α` denotes. -/
theorem narrow_eq_some_iff {denoted : α → ℤ} (h : ∀ {i n}, narrow i = some n ↔ denoted n = i)
    {n : α} : f.toInt?.bind narrow = some n ↔ f.isFinite = true ∧ f.value = denoted n := by
  simp only [Option.bind_eq_some_iff, toInt?_eq_some_iff, h]
  constructor
  · rintro ⟨i, hi, rfl⟩
    exact hi
  · exact fun hn => ⟨denoted n, hn, rfl⟩

/-- A number is refused unless it is finite and denotes an integer in the range of the others. -/
theorem narrow_eq_none_iff (range : ℚ → Prop) (h : ∀ i, narrow i = none ↔ ¬ range i) :
    f.toInt?.bind narrow = none ↔
      ¬ (f.isFinite = true ∧ (∃ i : ℤ, f.value = i) ∧ range f.value) := by
  simp only [Option.bind_eq_none_iff, toInt?_eq_some_iff, h]
  constructor
  · rintro hnone ⟨hfinite, ⟨i, hi⟩, hrange⟩
    exact hnone i ⟨hfinite, hi⟩ (hi ▸ hrange)
  · rintro hnone i ⟨hfinite, hi⟩ hrange
    exact hnone ⟨hfinite, ⟨i, hi⟩, hi ▸ hrange⟩

end Narrow

end Binary64

/-! ## Widths -/

theorem int32?_eq_none_iff (i : ℤ) :
    int32? i = none ↔ ¬ (-2 ^ 31 ≤ (i : ℚ) ∧ (i : ℚ) ≤ 2 ^ 31 - 1) := by
  have hrange : (-2 ^ 31 ≤ (i : ℚ) ∧ (i : ℚ) ≤ 2 ^ 31 - 1) ↔ -2 ^ 31 ≤ i ∧ i ≤ 2 ^ 31 - 1 := by
    norm_cast
  rw [hrange, int32?]
  split
  · exact iff_of_false (Option.some_ne_none _) (by omega)
  · exact iff_of_true rfl (by omega)

theorem int64?_eq_none_iff (i : ℤ) :
    int64? i = none ↔ ¬ (-2 ^ 63 ≤ (i : ℚ) ∧ (i : ℚ) < 2 ^ 63) := by
  have hrange : (-2 ^ 63 ≤ (i : ℚ) ∧ (i : ℚ) < 2 ^ 63) ↔ -2 ^ 63 ≤ i ∧ i < 2 ^ 63 := by
    norm_cast
  rw [hrange, int64?]
  split
  · exact iff_of_false (Option.some_ne_none _) (by omega)
  · exact iff_of_true rfl (by omega)

/-- An integer of thirty-two bits has sixty-four bits too. -/
theorem int32?_eq_bind_int64? (i : ℤ) :
    int32? i = (int64? i).bind fun n => int32? n.toInt := by
  cases hwide : int64? i with
  | some n => rw [Option.bind_some, int64?_eq_some_iff.1 hwide]
  | none =>
    rw [Option.bind_none, int32?, if_neg]
    intro hnarrow
    rw [int64?, if_pos (by omega)] at hwide
    cases hwide

namespace Value

variable {f : Binary64}

theorem convert_float64_int64 :
    (Value.float64 f).convert .int64 = f.whole?.map .int64 :=
  rfl

theorem convert_float64_int32 :
    (Value.float64 f).convert .int32 = (f.whole?.bind narrow?).map .int32 :=
  rfl

/-- To narrow a number by way of sixty-four bits is to narrow it at once. -/
theorem whole?_bind_narrow? : f.whole?.bind narrow? = f.toInt?.bind int32? := by
  rw [f.whole?_eq, Option.bind_assoc]
  exact congrArg _ (funext fun i => (int32?_eq_bind_int64? i).symm)

theorem convert_float64_eq_bind :
    (Value.float64 f).convert .int32 =
      ((Value.float64 f).convert .int64).bind (·.convert .int32) := by
  rw [convert_float64_int32, convert_float64_int64]
  cases f.whole? <;> rfl

/-- A number becomes an integer of sixty-four bits exactly if it is finite and denotes that integer,
and so with thirty-two bits; it is refused exactly if it is not finite, denotes no integer or one
out of range. To narrow it at once and to narrow it in two steps is the same. -/
theorem narrowed_float64 (f : Binary64) :
    (∀ w, (Value.float64 f).convert .int64 = some w ↔
        ∃ i : Int64, w = .int64 i ∧ f.isFinite = true ∧ f.value = i.toInt) ∧
      ((Value.float64 f).convert .int64 = none ↔
        ¬ (f.isFinite = true ∧ (∃ i : ℤ, f.value = i) ∧ -2 ^ 63 ≤ f.value ∧ f.value < 2 ^ 63)) ∧
      (∀ w, (Value.float64 f).convert .int32 = some w ↔
        ∃ i : Int32, w = .int32 i ∧ f.isFinite = true ∧ f.value = i.toInt) ∧
      ((Value.float64 f).convert .int32 = none ↔
        ¬ (f.isFinite = true ∧ (∃ i : ℤ, f.value = i) ∧
          -2 ^ 31 ≤ f.value ∧ f.value ≤ 2 ^ 31 - 1)) ∧
      (Value.float64 f).convert .int32 =
        ((Value.float64 f).convert .int64).bind (·.convert .int32) := by
  refine ⟨fun w => ?_, ?_, fun w => ?_, ?_, convert_float64_eq_bind⟩
  · simp only [convert_float64_int64, f.whole?_eq, Option.map_eq_some_iff,
      Binary64.narrow_eq_some_iff int64?_eq_some_iff]
    exact exists_congr fun i => by rw [and_comm, eq_comm]
  · rw [convert_float64_int64, f.whole?_eq, Option.map_eq_none_iff]
    exact Binary64.narrow_eq_none_iff (fun x => -2 ^ 63 ≤ x ∧ x < 2 ^ 63) int64?_eq_none_iff
  · simp only [convert_float64_int32, whole?_bind_narrow?, Option.map_eq_some_iff,
      Binary64.narrow_eq_some_iff int32?_eq_some_iff]
    exact exists_congr fun i => by rw [and_comm, eq_comm]
  · rw [convert_float64_int32, whole?_bind_narrow?, Option.map_eq_none_iff]
    exact Binary64.narrow_eq_none_iff (fun x => -2 ^ 31 ≤ x ∧ x ≤ 2 ^ 31 - 1) int32?_eq_none_iff

-- At the ends of the range: its least number, and the first one past its greatest.
example :
    (Value.float64 ⟨0xC3E0000000000000⟩).convert .int64 = some (.int64 (-9223372036854775808)) ∧
      (Value.float64 ⟨0x43E0000000000000⟩).convert .int64 = none := by
  decide +kernel

end Value

end PathQuery
