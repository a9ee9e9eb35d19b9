import Mathlib.Data.List.Induction
import Mathlib.Data.List.Nodup
import PathQuery.Row

/-!
# Reading rows back

A row that was built by assignments has under each name the value that was assigned to it last. If
no name is assigned twice, every value can be read back.
-/

namespace PathQuery

namespace Fields

variable {α : Type} {fs : Fields α} {name : String} {v : α}

theorem get?_insert (other : String) :
    (fs.insert name v).get? other = if name = other then some v else fs.get? other := by
  split
  next h => rw [← h, get?_insert_self]
  next h => rw [get?_insert_of_ne v fs (Ne.symm h)]

-- Where no name stands twice, the values under a name are the ones that stand with it.
theorem get?_eq_some_iff (h : (fs.map (·.1)).Nodup) :
    fs.get? name = some v ↔ (name, v) ∈ fs := by
  induction fs with
  | nil => simp [get?]
  | cons f fs ih =>
    obtain ⟨hf, hfs⟩ := List.nodup_cons.1 h
    rw [get?_cons, List.mem_cons]
    split
    next hname =>
      subst hname
      -- the name does not stand behind its first place
      have hnone : (f.1, v) ∉ fs := fun hmem => hf (List.mem_map.2 ⟨_, hmem, rfl⟩)
      rw [or_iff_left hnone, Prod.ext_iff, Option.some.injEq, eq_comm]
      exact (and_iff_right rfl).symm
    next hname =>
      rw [ih hfs, or_iff_right]
      rintro rfl
      exact hname rfl

end Fields

namespace Row

theorem get?_set (r : Row) (name other : String) (v : Value) :
    (r.set name v).get? other = if name = other then some v else r.get? other :=
  Fields.get?_insert other

/-- Under a name stands the value that was assigned to it last. -/
theorem get?_ofList (cells : List (String × Value)) (name : String) :
    (ofList cells).get? name = Fields.get? cells.reverse name := by
  induction cells using List.reverseRecOn with
  | nil => rfl
  | append_singleton cells cell ih =>
    rw [ofList, List.foldl_concat, get?_set, List.reverse_concat, Fields.get?_cons, ← ih, ofList]

-- Without names that are assigned twice, every value can be read back.
theorem get?_ofList_of_mem {cells : List (String × Value)} {cell : String × Value}
    (h : (cells.map (·.1)).Nodup) (hcell : cell ∈ cells) :
    (ofList cells).get? cell.1 = some cell.2 := by
  rw [get?_ofList, Fields.get?_eq_some_iff, List.mem_reverse]
  · exact hcell
  · rwa [List.map_reverse, List.nodup_reverse]

end Row

end PathQuery
