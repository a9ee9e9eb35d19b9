import Mathlib.Algebra.Order.Field.Power
import Mathlib.Data.Rat.Cast.Order
import Mathlib.Tactic.FieldSimp
import Mathlib.Tactic.Linarith
import Mathlib.Tactic.NormNum
import Mathlib.Tactic.Ring
import PathQuery.Proofs.Binary64

/-!
# The numbers that doubles denote

A finite number denotes its significand, with its sign, scaled by a power of two. The number made
for an integer of sixty-four bits is finite, is the one nearest to it, and denotes exactly that
integer when one of them does.
-/

namespace PathQuery.Binary64

/-- The number that a finite double denotes. -/
def value (f : Binary64) : ℚ :=
  f.withSign f.significand * 2 ^ f.exponent

/-- Fifty-three binary digits, with zeros behind them, are enough for the integer. -/
def Fits (i : ℤ) : Prop :=
  ∃ (m : ℤ) (k : ℕ), |m| < 2 ^ 53 ∧ i = m * 2 ^ k

theorem significand_lt (f : Binary64) : f.significand < 2 ^ 53 := by
  have hfraction : f.fraction < exponentUnit := Nat.mod_lt _ (by decide)
  unfold exponentUnit at hfraction
  unfold significand exponentUnit
  split <;> omega

theorem abs_withSign_significand_lt (f : Binary64) : |f.withSign f.significand| < 2 ^ 53 := by
  have hlt := f.significand_lt
  unfold withSign
  split
  · rw [abs_neg, Nat.abs_cast]
    omega
  · rw [Nat.abs_cast]
    omega

/-- An integer that a number denotes fits. -/
theorem fits_of_value_eq {f : Binary64} {i : ℤ} (h : f.value = i) : Fits i := by
  have hdigits := f.abs_withSign_significand_lt
  unfold value at h
  generalize f.withSign f.significand = m at *
  obtain ⟨k, hk | hk⟩ := f.exponent.eq_nat_or_neg
  · refine ⟨m, k, hdigits, ?_⟩
    rw [hk, zpow_natCast] at h
    exact_mod_cast h.symm
  · -- the number is a fraction of its significand, so no larger
    refine ⟨i, 0, ?_, by simp⟩
    have hscaled : m = i * 2 ^ k := by
      rw [hk, zpow_neg, zpow_natCast, mul_inv_eq_iff_eq_mul₀ (by positivity)] at h
      exact_mod_cast h
    have hle : |i| ≤ |m| := by
      rw [hscaled, abs_mul]
      exact le_mul_of_one_le_right (abs_nonneg i) (Int.one_le_abs (by positivity))
    exact hle.trans_lt hdigits

/-! ## Numbers from their bits -/

section Magnitude

variable {negative : Bool} {magnitude : Nat} (h : magnitude < signUnit)

include h

theorem toNat_bits_ofMagnitude :
    (ofMagnitude negative magnitude).bits.toNat =
      magnitude + if negative then signUnit else 0 := by
  have hlt : magnitude + (if negative then signUnit else 0) < 2 ^ 64 := by
    unfold signUnit at *
    cases negative <;> simp <;> omega
  exact UInt64.toNat_ofNat_of_lt' hlt

theorem isNegative_ofMagnitude : (ofMagnitude negative magnitude).isNegative = negative := by
  rw [isNegative, toNat_bits_ofMagnitude h]
  unfold signUnit at *
  cases negative <;> simp <;> omega

theorem biased_ofMagnitude :
    (ofMagnitude negative magnitude).biased = magnitude / exponentUnit := by
  rw [biased, toNat_bits_ofMagnitude h]
  unfold signUnit exponentUnit at *
  cases negative <;> simp <;> omega

theorem fraction_ofMagnitude :
    (ofMagnitude negative magnitude).fraction = magnitude % exponentUnit := by
  rw [fraction, toNat_bits_ofMagnitude h]
  unfold signUnit exponentUnit at *
  cases negative with
  | false => rw [if_neg Bool.false_ne_true, Nat.add_zero]
  | true => rw [if_pos rfl]; omega

end Magnitude

theorem isFinite_ofMagnitude {negative : Bool} {magnitude : Nat} (h : magnitude < infinityBits) :
    (ofMagnitude negative magnitude).isFinite = true := by
  unfold infinityBits exponentUnit at h
  have hmagnitude : magnitude < signUnit := by
    unfold signUnit
    omega
  have hne : magnitude / exponentUnit ≠ 2047 := by
    unfold exponentUnit
    omega
  rw [isFinite, biased_ofMagnitude hmagnitude]
  exact bne_iff_ne.2 hne

theorem magnitude_lt {e : ℤ} {r : Nat} (he : e ≤ 11) (hr : r ≤ 2 ^ 53) :
    (e + 1074).toNat * exponentUnit + r < infinityBits := by
  unfold infinityBits exponentUnit
  omega

/-- A significand of fifty-three binary digits is put on top of an exponent; if it has come to have
one digit more, the exponent grows by one. -/
theorem value_ofMagnitude {negative : Bool} {k r : Nat} (hk : k < 2045) (hlow : 2 ^ 52 ≤ r)
    (hhigh : r ≤ 2 ^ 53) :
    (ofMagnitude negative (k * exponentUnit + r)).value =
      (if negative then -r else r : ℤ) * 2 ^ ((k : ℤ) - 1074) := by
  have hmagnitude : k * exponentUnit + r < signUnit := by
    unfold exponentUnit signUnit
    omega
  rw [value, withSign, exponent, significand, isNegative_ofMagnitude hmagnitude,
    biased_ofMagnitude hmagnitude, fraction_ofMagnitude hmagnitude]
  unfold exponentUnit
  by_cases hcarry : r < 2 ^ 53
  · have hbiased : (k * 0x10000000000000 + r) / 0x10000000000000 = k + 1 := by omega
    have hfraction : (k * 0x10000000000000 + r) % 0x10000000000000 = r - 2 ^ 52 := by omega
    rw [hbiased, hfraction, if_neg (show ¬ k + 1 = 0 by omega)]
    have hsignificand : r - 2 ^ 52 + 0x10000000000000 = r := by omega
    have hexponent : ((max (k + 1) 1 : ℕ) : ℤ) - 1075 = (k : ℤ) - 1074 := by omega
    rw [hsignificand, hexponent]
  · have hr : r = 2 ^ 53 := by omega
    have hbiased : (k * 0x10000000000000 + r) / 0x10000000000000 = k + 2 := by omega
    have hfraction : (k * 0x10000000000000 + r) % 0x10000000000000 = 0 := by omega
    rw [hbiased, hfraction, if_neg (show ¬ k + 2 = 0 by omega)]
    have hexponent : ((max (k + 2) 1 : ℕ) : ℤ) - 1075 = ((k : ℤ) - 1074) + 1 := by omega
    rw [hexponent, zpow_add_one₀ (by norm_num), hr]
    cases negative <;> norm_num <;> ring

/-! ## Nearest whole numbers -/

-- Rounding stays below if the rest is at most a half, and goes up if it is at least one.
theorem roundHalfEven_cases (num den : Nat) :
    (roundHalfEven num den = num / den ∧ 2 * (num % den) ≤ den) ∨
      (roundHalfEven num den = num / den + 1 ∧ den ≤ 2 * (num % den)) := by
  unfold roundHalfEven
  dsimp only
  split
  · exact .inl ⟨rfl, by omega⟩
  · split
    · exact .inr ⟨rfl, by omega⟩
    · have hparity : num / den % 2 = 0 ∨ num / den % 2 = 1 := by omega
      rcases hparity with hzero | hone
      · exact .inl ⟨by omega, by omega⟩
      · exact .inr ⟨by omega, by omega⟩

/-- Rounding gives a whole number that is nearest to the quotient. -/
theorem roundHalfEven_nearest {num den : Nat} (hden : 0 < den) (k : ℤ) :
    |(roundHalfEven num den : ℤ) * den - num| ≤ |k * den - num| := by
  have hdiv : (num : ℤ) = (num / den : ℕ) * den + (num % den : ℕ) := by
    exact_mod_cast (Nat.div_add_mod' num den).symm
  have hmod : num % den < den := Nat.mod_lt _ hden
  have hround := roundHalfEven_cases num den
  generalize roundHalfEven num den = n at *
  generalize num / den = q at *
  generalize num % den = r at *
  -- what lies between a multiple of the denominator and the numerator is the rest or more
  have hpast : k * den - num = (k - q) * den - r := by rw [hdiv]; ring
  have hmultiple : (k - q) * den ≤ 0 ∨ (den : ℤ) ≤ (k - q) * den := by
    rcases le_or_gt k (q : ℤ) with hle | hlt
    · exact .inl (mul_nonpos_of_nonpos_of_nonneg (by omega) (by omega))
    · exact .inr (le_mul_of_one_le_left (by omega) (by omega))
  rw [hpast]
  generalize (k - q) * (den : ℤ) = past at *
  rcases hround with ⟨hn, hrest⟩ | ⟨hn, hrest⟩
  · have hself : (n : ℤ) * den - num = -r := by rw [hn, hdiv]; ring
    rw [hself]
    grind
  · have hself : (n : ℤ) * den - num = den - r := by rw [hn, hdiv]; push_cast; ring
    rw [hself]
    grind

/-! ## Numbers made for integers -/

/-- A whole number as a fraction of a power of two, with fifty-three binary digits before the
point. -/
structure Scaled (num n d : Nat) (e : ℤ) : Prop where
  pos : 0 < d
  eq : (num : ℚ) * d = n * 2 ^ e
  low : 2 ^ 52 * d ≤ n
  high : n < 2 ^ 53 * d

theorem scaled_log2 {num : Nat} (h : num ≠ 0) :
    Scaled num (scaled num 1 ((Nat.log2 num : ℤ) - 52)).1
      (scaled num 1 ((Nat.log2 num : ℤ) - 52)).2 ((Nat.log2 num : ℤ) - 52) := by
  have hlow : 2 ^ Nat.log2 num ≤ num := Nat.log2_self_le h
  have hhigh : num < 2 ^ (Nat.log2 num + 1) := Nat.lt_log2_self
  rcases Nat.lt_or_ge (Nat.log2 num) 52 with hsmall | hlarge
  · obtain ⟨k, hk⟩ := Nat.exists_eq_add_of_lt hsmall
    have hexponent : (Nat.log2 num : ℤ) - 52 = Int.negSucc k := by omega
    have hpow : 2 ^ Nat.log2 num * 2 ^ (k + 1) = 2 ^ 52 := by
      rw [← Nat.pow_add, hk, Nat.add_assoc]
    rw [hexponent, scaled, Nat.pow_eq]
    refine ⟨Nat.one_pos, ?_, ?_, ?_⟩
    · rw [zpow_negSucc]
      push_cast
      field_simp
    · rw [Nat.mul_one, ← hpow]
      exact Nat.mul_le_mul_right _ hlow
    · calc num * 2 ^ (k + 1) < 2 ^ (Nat.log2 num + 1) * 2 ^ (k + 1) :=
            Nat.mul_lt_mul_of_pos_right hhigh (Nat.two_pow_pos _)
        _ = 2 * (2 ^ Nat.log2 num * 2 ^ (k + 1)) := by ring
        _ = 2 ^ 53 * 1 := by rw [hpow]; rfl
  · obtain ⟨k, hk⟩ := Nat.exists_eq_add_of_le hlarge
    have hexponent : (Nat.log2 num : ℤ) - 52 = Int.ofNat k := by
      rw [Int.ofNat_eq_natCast]
      omega
    rw [hk] at hlow hhigh
    rw [hexponent, scaled, Nat.pow_eq]
    refine ⟨Nat.mul_pos Nat.one_pos (Nat.two_pow_pos k), ?_, ?_, ?_⟩
    · push_cast
      simp
    · calc 2 ^ 52 * (1 * 2 ^ k) = 2 ^ (52 + k) := by ring
        _ ≤ num := hlow
    · calc num < 2 ^ (52 + k + 1) := hhigh
        _ = 2 ^ 53 * (1 * 2 ^ k) := by ring

/-- The exponent of a whole number leaves fifty-three binary digits of it. -/
theorem exponentFor_eq {num : Nat} (h : num ≠ 0) :
    exponentFor num 1 = (Nat.log2 num : ℤ) - 52 := by
  have hlow := (scaled_log2 h).low
  have hguess : (Nat.log2 num : ℤ) - (Nat.log2 1 : ℕ) - 52 = (Nat.log2 num : ℤ) - 52 := by
    rw [show Nat.log2 1 = 0 by decide]
    omega
  unfold exponentFor
  rw [hguess]
  unfold exponentUnit
  dsimp only
  rw [if_neg (by omega)]
  omega

namespace Scaled

variable {num n d : Nat} {e : ℤ}

theorem roundHalfEven_bounds (h : Scaled num n d e) :
    2 ^ 52 ≤ roundHalfEven n d ∧ roundHalfEven n d ≤ 2 ^ 53 := by
  have hlow : 2 ^ 52 ≤ n / d := (Nat.le_div_iff_mul_le h.pos).2 h.low
  have hhigh : n / d < 2 ^ 53 := (Nat.div_lt_iff_lt_mul h.pos).2 h.high
  rcases roundHalfEven_cases n d with ⟨hround, -⟩ | ⟨hround, -⟩ <;> omega

/-- No other multiple of the power of two is nearer. -/
theorem nearest (h : Scaled num n d e) (k : ℤ) :
    |(roundHalfEven n d : ℚ) * 2 ^ e - num| ≤ |(k : ℚ) * 2 ^ e - num| := by
  have hd : (0 : ℚ) < d := by exact_mod_cast h.pos
  have hscale (x : ℚ) : x * 2 ^ e - num = (x * d - n) * (2 ^ e / d) := by
    have hnum : (num : ℚ) = n * 2 ^ e / d := by
      rw [eq_div_iff hd.ne']
      exact h.eq
    rw [hnum]
    field_simp
  have hwhole : |(roundHalfEven n d : ℚ) * d - n| ≤ |(k : ℚ) * d - n| := by
    exact_mod_cast roundHalfEven_nearest h.pos k
  rw [hscale, hscale, abs_mul, abs_mul]
  exact mul_le_mul_of_nonneg_right hwhole (abs_nonneg (2 ^ e / (d : ℚ)))

-- The least number with fifty-three binary digits before the point is not above.
theorem two_pow_le (h : Scaled num n d e) : (2 : ℚ) ^ 52 * 2 ^ e ≤ num := by
  have hd : (0 : ℚ) < d := by exact_mod_cast h.pos
  have hlow : (2 : ℚ) ^ 52 * d ≤ n := by exact_mod_cast h.low
  have hscaled : (2 : ℚ) ^ 52 * 2 ^ e * d ≤ num * d := by
    rw [h.eq, mul_right_comm]
    gcongr
  exact le_of_mul_le_mul_right hscaled hd

/-- No number of fifty-three binary digits is nearer, whatever its scale. -/
theorem nearest_dyadic (h : Scaled num n d e) {m : ℤ} (hm : |m| < 2 ^ 53) (t : ℤ) :
    |(roundHalfEven n d : ℚ) * 2 ^ e - num| ≤ |(m : ℚ) * 2 ^ t - num| := by
  rcases le_or_gt e t with hle | hlt
  · -- the number is a multiple of the same power of two
    have hmultiple : (m : ℚ) * 2 ^ t = ((m * 2 ^ (t - e).toNat : ℤ) : ℚ) * 2 ^ e := by
      push_cast
      rw [mul_assoc, ← zpow_natCast, ← zpow_add₀ (by norm_num)]
      congr 2
      omega
    rw [hmultiple]
    exact h.nearest _
  · -- the number is smaller than the least one with that many digits, which is in the way
    have hfar : (m : ℚ) * 2 ^ t ≤ 2 ^ 52 * 2 ^ e := by
      have hdigits : (m : ℚ) ≤ 2 ^ 53 := by exact_mod_cast (le_abs_self m).trans hm.le
      calc (m : ℚ) * 2 ^ t ≤ 2 ^ 53 * 2 ^ t := by gcongr
        _ ≤ 2 ^ 53 * 2 ^ (e - 1) :=
          mul_le_mul_of_nonneg_left (zpow_le_zpow_right₀ (by norm_num) (by omega)) (by norm_num)
        _ = 2 ^ 52 * 2 ^ e := by rw [zpow_sub_one₀ (by norm_num)]; ring
    have hbetween := h.two_pow_le
    have hleast := h.nearest (2 ^ 52)
    rw [show ((2 ^ 52 : ℤ) : ℚ) = 2 ^ 52 by norm_num] at hleast
    rw [abs_of_nonpos (sub_nonpos.2 hbetween)] at hleast
    rw [abs_of_nonpos (sub_nonpos.2 (hfar.trans hbetween))]
    linarith

end Scaled

/-- The number that is made for a whole number has its exponent on top and fifty-three binary digits
below, to which it is rounded. -/
theorem ofRatio_eq_ofMagnitude {negative : Bool} {num : Nat} (hne : num ≠ 0) (h : num < 2 ^ 64) :
    ∃ n d, Scaled num n d ((Nat.log2 num : ℤ) - 52) ∧
      ((Nat.log2 num : ℤ) - 52 + 1074).toNat * exponentUnit + roundHalfEven n d < infinityBits ∧
      ofRatio negative num 1 = ofMagnitude negative
        (((Nat.log2 num : ℤ) - 52 + 1074).toNat * exponentUnit + roundHalfEven n d) := by
  have hscaled := scaled_log2 hne
  have hlog : Nat.log2 num < 64 := (Nat.log2_lt hne).2 h
  rw [ofRatio, if_neg hne, exponentFor_eq hne]
  generalize he : (Nat.log2 num : ℤ) - 52 = e at *
  unfold roundedBits
  dsimp only
  have hfinite := magnitude_lt (e := e) (by omega) hscaled.roundHalfEven_bounds.2
  refine ⟨_, _, hscaled, hfinite, ?_⟩
  rw [Nat.min_eq_left hfinite.le]

theorem isFinite_ofRatio {negative : Bool} {num : Nat} (h : num < 2 ^ 64) :
    (ofRatio negative num 1).isFinite = true := by
  by_cases hne : num = 0
  · rw [ofRatio, if_pos hne]
    exact isFinite_ofMagnitude (by decide)
  · obtain ⟨n, d, -, hfinite, hratio⟩ := ofRatio_eq_ofMagnitude hne h
    rw [hratio]
    exact isFinite_ofMagnitude hfinite

theorem value_ofRatio {negative : Bool} {num : Nat} (hne : num ≠ 0) (h : num < 2 ^ 64) :
    ∃ n d, Scaled num n d ((Nat.log2 num : ℤ) - 52) ∧
      (ofRatio negative num 1).value =
        (if negative then -roundHalfEven n d else roundHalfEven n d : ℤ) *
          2 ^ ((Nat.log2 num : ℤ) - 52) := by
  obtain ⟨n, d, hscaled, -, hratio⟩ := @ofRatio_eq_ofMagnitude negative num hne h
  have hlog : Nat.log2 num < 64 := (Nat.log2_lt hne).2 h
  obtain ⟨hlow, hhigh⟩ := hscaled.roundHalfEven_bounds
  have hscale : (((Nat.log2 num : ℤ) - 52 + 1074).toNat : ℤ) - 1074 = (Nat.log2 num : ℤ) - 52 := by
    omega
  refine ⟨n, d, hscaled, ?_⟩
  rw [hratio, value_ofMagnitude (by omega) hlow hhigh, hscale]

/-! ## Integers -/

variable {i : ℤ}

/-- An integer of sixty-four bits has a finite number nearest to it. -/
theorem isFinite_ofInt (h : i.natAbs < 2 ^ 64) : (ofInt i).isFinite = true :=
  isFinite_ofRatio h

theorem value_ofInt_zero : (ofInt 0).value = 0 := by
  have hzero : ofInt 0 = ofMagnitude false 0 := rfl
  have hsignificand : (ofMagnitude false 0).significand = 0 := by decide
  rw [hzero, value, hsignificand, withSign, isNegative_ofMagnitude (by decide)]
  simp

/-- The number made for an integer is as near to it as any number of fifty-three binary digits,
whatever its scale. -/
theorem ofInt_nearest_dyadic (h : i.natAbs < 2 ^ 64) {m : ℤ} (hm : |m| < 2 ^ 53) (t : ℤ) :
    |(ofInt i).value - i| ≤ |(m : ℚ) * 2 ^ t - i| := by
  by_cases hi : i = 0
  · rw [hi, value_ofInt_zero, Int.cast_zero, sub_zero, abs_zero]
    exact abs_nonneg _
  obtain ⟨n, d, hscaled, hvalue⟩ :=
    @value_ofRatio (decide (i < 0)) i.natAbs (Int.natAbs_ne_zero.2 hi) h
  rw [ofInt, hvalue]
  by_cases hneg : i < 0
  · have hnearest := hscaled.nearest_dyadic (m := -m) (by rwa [abs_neg]) t
    have habs : (i.natAbs : ℚ) = -i := by
      rw [Nat.cast_natAbs, Int.cast_abs]
      exact abs_of_neg (by exact_mod_cast hneg)
    rw [habs, ← abs_neg, ← abs_neg (_ * _ - _)] at hnearest
    rw [decide_eq_true hneg, if_pos rfl]
    push_cast at hnearest ⊢
    convert hnearest using 2 <;> ring
  · have hnearest := hscaled.nearest_dyadic hm t
    have habs : (i.natAbs : ℚ) = i := by
      rw [Nat.cast_natAbs, Int.cast_abs]
      exact abs_of_nonneg (by exact_mod_cast not_lt.1 hneg)
    rw [habs] at hnearest
    rw [decide_eq_false hneg, if_neg Bool.false_ne_true]
    exact hnearest

/-- No number is nearer to an integer than the one made for it. -/
theorem ofInt_nearest (h : i.natAbs < 2 ^ 64) (g : Binary64) :
    |(ofInt i).value - i| ≤ |g.value - i| :=
  ofInt_nearest_dyadic h g.abs_withSign_significand_lt g.exponent

/-- The number made for an integer denotes it exactly if it fits. -/
theorem value_ofInt_eq_iff (h : i.natAbs < 2 ^ 64) : (ofInt i).value = i ↔ Fits i := by
  constructor
  · exact fits_of_value_eq
  · rintro ⟨m, k, hm, hi⟩
    have hnearest := ofInt_nearest_dyadic h hm k
    have hzero : (m : ℚ) * 2 ^ (k : ℤ) - i = 0 := by
      rw [hi]
      push_cast
      rw [zpow_natCast, sub_self]
    rw [hzero, abs_zero] at hnearest
    exact sub_eq_zero.1 (abs_eq_zero.1 (le_antisymm hnearest (abs_nonneg _)))

/-- The numbers made for integers are in their order. -/
theorem value_ofInt_mono {j : ℤ} (hi : i.natAbs < 2 ^ 64) (hj : j.natAbs < 2 ^ 64) (h : i ≤ j) :
    (ofInt i).value ≤ (ofInt j).value := by
  rcases h.eq_or_lt with rfl | hlt
  · exact le_rfl
  by_contra hgt
  have hlt : (i : ℚ) < j := by exact_mod_cast hlt
  -- both integers would lie on the wrong side of the middle between the numbers
  have hnear := sq_le_sq.2 (ofInt_nearest hi (ofInt j))
  have hnear' := sq_le_sq.2 (ofInt_nearest hj (ofInt i))
  generalize (ofInt i).value = a at *
  generalize (ofInt j).value = b at *
  have hupper : 0 ≤ 2 * i - a - b := by nlinarith
  have hlower : 0 ≤ a + b - 2 * j := by nlinarith
  linarith

end PathQuery.Binary64
