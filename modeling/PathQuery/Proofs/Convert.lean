import PathQuery.Compile
import PathQuery.Proofs.Binary64.Value

/-!
# Integers as operands of doubles

An integer that is compared with a double becomes the number nearest to it. It stays the same number
exactly if fifty-three binary digits and zeros behind them are enough for it; two such integers
become the same operand only if they are the same.
-/

namespace PathQuery

namespace Value

-- An integer of sixty-four bits has a magnitude of sixty-four bits.
theorem natAbs_toInt_lt (i : Int64) : i.toInt.natAbs < 2 ^ 64 := by
  have hlow := i.le_toInt
  have hhigh := i.toInt_lt
  omega

theorem convert_int64_float64 (i : Int64) :
    (Value.int64 i).convert .float64 = some (.float64 (.ofInt i.toInt)) :=
  rfl

end Value

namespace Condition

variable {c : Condition} {path : Path}

/-- The operand of a condition that compares a double with an integer. -/
theorem operand_int64 (hconverts : c.kind.converts = true)
    (hpath : path.terminal.declared.comparison? = some .float64) (i : Int64) :
    c.operand path (.int64 i) = .ok (.float64 (.ofInt i.toInt)) := by
  rw [operand, hpath]
  dsimp only
  rw [if_pos hconverts, Value.convert_int64_float64]

end Condition

namespace Value

/-- An integer becomes a finite number, and no number is nearer to it; that number is the integer
itself exactly if the integer fits, as it does if any number is the same. Conditions on doubles get
this number as their operand. Larger integers become no smaller numbers, and integers that fit
become the same operand only if they are the same. -/
theorem widened_int64 (i : Int64) :
    ∃ f, (Value.int64 i).convert .float64 = some (.float64 f) ∧ f.isFinite = true ∧
      (∀ g : Binary64, |f.value - i.toInt| ≤ |g.value - i.toInt|) ∧
      (f.value = i.toInt ↔ Binary64.Fits i.toInt) ∧
      (∀ (c : Condition) (path : Path), c.kind.converts = true →
        path.terminal.declared.comparison? = some .float64 →
        c.operand path (.int64 i) = .ok (.float64 f)) ∧
      ∀ (j : Int64) (g : Binary64), (Value.int64 j).convert .float64 = some (.float64 g) →
        (i ≤ j → f.value ≤ g.value) ∧
        (Binary64.Fits i.toInt → Binary64.Fits j.toInt → f = g → i = j) := by
  have hi := natAbs_toInt_lt i
  refine ⟨.ofInt i.toInt, convert_int64_float64 i, Binary64.isFinite_ofInt hi,
    Binary64.ofInt_nearest hi, Binary64.value_ofInt_eq_iff hi,
    fun c path hconverts hpath => Condition.operand_int64 hconverts hpath i, ?_⟩
  intro j g hg
  have hj := natAbs_toInt_lt j
  rw [convert_int64_float64] at hg
  cases hg
  refine ⟨fun hle => Binary64.value_ofInt_mono hi hj (Int64.le_iff_toInt_le.1 hle), ?_⟩
  intro hfits hfits' heq
  have hsame : (i.toInt : ℚ) = j.toInt := by
    rw [← (Binary64.value_ofInt_eq_iff hi).2 hfits, ← (Binary64.value_ofInt_eq_iff hj).2 hfits',
      heq]
  exact Int64.toInt_inj.1 (by exact_mod_cast hsame)

-- The least integer of fifty-four binary digits still fits.
theorem widened_int64_fits :
    ∃ f, (Value.int64 9007199254740992).convert .float64 = some (.float64 f) ∧
      f.value = 9007199254740992 := by
  have hfits : Binary64.Fits (Int64.toInt 9007199254740992) := ⟨1, 53, by decide, by decide⟩
  obtain ⟨f, hconvert, -, -, hvalue, -⟩ := widened_int64 9007199254740992
  exact ⟨f, hconvert, by exact_mod_cast hvalue.2 hfits⟩

-- An odd integer that fits has no zeros behind its digits.
theorem not_fits_of_odd {i : ℤ} (hodd : i % 2 = 1) (hlarge : 2 ^ 53 ≤ |i|) :
    ¬ Binary64.Fits i := by
  rintro ⟨m, k, hm, hi⟩
  cases k with
  | zero =>
    rw [pow_zero, mul_one] at hi
    exact absurd hm (not_lt.2 (hi ▸ hlarge))
  | succ k =>
    rw [pow_succ, ← mul_assoc] at hi
    omega

/-- Past fifty-three binary digits two integers become one number, and one of them is another. -/
theorem convert_int64_inexact :
    (Value.int64 9007199254740993).convert .float64 =
        some (.float64 ⟨0x4340000000000000⟩) ∧
      (Value.int64 9007199254740992).convert .float64 =
        some (.float64 ⟨0x4340000000000000⟩) ∧
      Binary64.value ⟨0x4340000000000000⟩ ≠ 9007199254740993 := by
  refine ⟨by decide +kernel, by decide +kernel, fun hvalue => ?_⟩
  have hfits : Binary64.Fits 9007199254740993 :=
    Binary64.fits_of_value_eq (by exact_mod_cast hvalue)
  exact not_fits_of_odd (by decide) (by decide) hfits

end Value

end PathQuery
