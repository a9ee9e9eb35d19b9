/-!
# Width — integers of thirty-two and of sixty-four bits

A number is narrowed only if nothing is lost: `int32? i = some n` exactly if `n` denotes `i`, and
so with `int64?`.
-/

namespace PathQuery

/-- The integers that have thirty-two bits in two's complement. -/
abbrev IsInt32 (i : Int) : Prop :=
  -2147483648 ≤ i ∧ i ≤ 2147483647

/-- The integers that have sixty-four bits in two's complement. -/
abbrev IsInt64 (i : Int) : Prop :=
  -9223372036854775808 ≤ i ∧ i ≤ 9223372036854775807

/-- The integer as a number of thirty-two bits, if it is one. -/
def int32? (i : Int) : Option Int32 :=
  if IsInt32 i then some (.ofInt i) else none

/-- The integer as a number of sixty-four bits, if it is one. -/
def int64? (i : Int) : Option Int64 :=
  if IsInt64 i then some (.ofInt i) else none

theorem int32?_eq_some_iff {i : Int} {n : Int32} : int32? i = some n ↔ n.toInt = i := by
  have hlo := n.le_toInt
  have hhi := n.toInt_lt
  unfold int32?
  split
  · rename_i h
    have hi : (Int32.ofInt i).toInt = i := Int32.toInt_ofInt_of_le (by omega) (by omega)
    rw [Option.some.injEq, ← Int32.toInt_inj, hi]
    exact eq_comm
  · simp only [reduceCtorEq, false_iff]
    omega

theorem int64?_eq_some_iff {i : Int} {n : Int64} : int64? i = some n ↔ n.toInt = i := by
  have hlo := n.le_toInt
  have hhi := n.toInt_lt
  unfold int64?
  split
  · rename_i h
    have hi : (Int64.ofInt i).toInt = i := Int64.toInt_ofInt_of_le (by omega) (by omega)
    rw [Option.some.injEq, ← Int64.toInt_inj, hi]
    exact eq_comm
  · simp only [reduceCtorEq, false_iff]
    omega

end PathQuery
