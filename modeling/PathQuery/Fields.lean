/-!
# Fields — named values in their order

A value is put in the place of the one under its name, or behind all others. What was put under a
name is found there, and every other name keeps what it had.
-/

namespace PathQuery

/-- Values with names. -/
abbrev Fields (α : Type) := List (String × α)

namespace Fields

variable {α : Type}

/-- The first value under a name. -/
def get? (fs : Fields α) (name : String) : Option α :=
  (fs.find? fun f => f.1 == name).map (·.2)

/-- Puts a value under a name, in the place of the one that is there or behind all others. -/
def insert (name : String) (v : α) : Fields α → Fields α
  | [] => [(name, v)]
  | f :: fs => if f.1 = name then (name, v) :: fs else f :: insert name v fs

/-- Takes away what stands under a name. -/
def erase (name : String) (fs : Fields α) : Fields α :=
  fs.filter fun f => f.1 != name

theorem get?_cons (f : String × α) (fs : Fields α) (name : String) :
    get? (f :: fs) name = if f.1 = name then some f.2 else get? fs name := by
  by_cases h : f.1 = name <;> simp [get?, h]

theorem get?_insert_self (name : String) (v : α) (fs : Fields α) :
    (fs.insert name v).get? name = some v := by
  induction fs with
  | nil => simp [insert, get?]
  | cons f fs ih =>
    rw [insert]
    split
    · rw [get?_cons, if_pos rfl]
    · rename_i h
      rw [get?_cons, if_neg h, ih]

theorem get?_insert_of_ne {name other : String} (v : α) (fs : Fields α) (h : other ≠ name) :
    (fs.insert name v).get? other = fs.get? other := by
  induction fs with
  | nil => simp [insert, get?, h.symm]
  | cons f fs ih =>
    rw [insert]
    split
    · rename_i hf
      rw [get?_cons, get?_cons, if_neg h.symm, if_neg (by rw [hf]; exact h.symm)]
    · rw [get?_cons, get?_cons, ih]

theorem get?_erase_self (name : String) (fs : Fields α) : (fs.erase name).get? name = none := by
  simp [erase, get?]

end Fields

end PathQuery
