import Mathlib.Data.Finset.Card
import PathQuery.Proofs.Chain
import PathQuery.Proofs.Row

/-!
# Rows after a run of assignments

A row that was built by assignments is an ordered map: its names are the assigned ones, each once
and in the order of their first assignment, and under each stands the value of its last one. As an
object it has the same names and values, whatever their order in the row.
-/

namespace PathQuery

/-! ## Fields with names of their own -/

namespace Fields

variable {α β : Type} {fs gs : Fields α} {name : String} {v : α}

theorem get?_eq_none_iff : fs.get? name = none ↔ name ∉ fs.map (·.1) := by
  induction fs with
  | nil => simp [get?]
  | cons f fs ih =>
    rw [get?_cons, List.map_cons, List.mem_cons, not_or, ← ih]
    split
    next h => simp [h]
    next h => simp [Ne.symm h]

-- What stands under a name is what stands at its first place.
theorem get?_eq_some_iff_append :
    fs.get? name = some v ↔
      ∃ before after, fs = before ++ (name, v) :: after ∧ name ∉ before.map (·.1) := by
  rw [get?, Option.map_eq_some_iff]
  constructor
  · rintro ⟨⟨other, w⟩, hfind, rfl⟩
    obtain ⟨hname, before, after, rfl, hbefore⟩ := List.find?_eq_some_iff_append.1 hfind
    obtain rfl : other = name := eq_of_beq hname
    refine ⟨before, after, rfl, fun hmem => ?_⟩
    obtain ⟨f, hf, hfname⟩ := List.mem_map.1 hmem
    simpa [hfname] using hbefore f hf
  · rintro ⟨before, after, rfl, hbefore⟩
    refine ⟨(name, v), List.find?_eq_some_iff_append.2
      ⟨beq_self_eq_true name, before, after, rfl, fun f hf => ?_⟩, rfl⟩
    rw [Bool.not_eq_true', beq_eq_false_iff_ne]
    rintro rfl
    exact hbefore (List.mem_map_of_mem hf)

theorem get?_map (f : α → β) : get? (fs.map fun c => (c.1, f c.2)) name = (fs.get? name).map f := by
  induction fs with
  | nil => rfl
  | cons c fs ih =>
    rw [List.map_cons, get?_cons, get?_cons, ih]
    split
    · rfl
    · rfl

-- A name that is there keeps its place, and a new one comes behind all others.
theorem names_insert :
    (fs.insert name v).map (·.1) =
      if name ∈ fs.map (·.1) then fs.map (·.1) else fs.map (·.1) ++ [name] := by
  induction fs with
  | nil => rfl
  | cons f fs ih =>
    rw [insert]
    by_cases h : f.1 = name
    · simp [h]
    · rw [if_neg h, List.map_cons, ih, List.map_cons]
      by_cases hmem : name ∈ fs.map (·.1)
      · rw [if_pos hmem, if_pos (List.mem_cons_of_mem _ hmem)]
      · rw [if_neg hmem, if_neg (by rw [List.mem_cons, not_or]; exact ⟨Ne.symm h, hmem⟩),
          List.cons_append]

-- Nothing moves, and only the value under the name changes.
theorem getElem?_insert {i : Nat} {f : String × α} (hnodup : (fs.map (·.1)).Nodup)
    (h : fs[i]? = some f) :
    (fs.insert name v)[i]? = some (if f.1 = name then (name, v) else f) := by
  induction fs generalizing i with
  | nil => cases h
  | cons g fs ih =>
    obtain ⟨hg, hfs⟩ := List.nodup_cons.1 hnodup
    rw [insert]
    cases i with
    | zero =>
      obtain rfl : g = f := Option.some.inj h
      split
      · rfl
      · rfl
    | succ i =>
      split
      next hname =>
        -- the name stands at the front, so it is not that of the field
        have hne : f.1 ≠ name := by
          rintro rfl
          exact hg (List.mem_map.2 ⟨f, List.mem_of_getElem? h, hname.symm⟩)
        rw [if_neg hne]
        exact h
      next => exact ih hfs h

-- Fields that give the same values under all names are the same up to their order.
theorem perm_of_get?_eq (hfs : (fs.map (·.1)).Nodup) (hgs : (gs.map (·.1)).Nodup)
    (h : ∀ name, fs.get? name = gs.get? name) : fs.Perm gs := by
  refine (List.perm_ext_iff_of_nodup (.of_map _ hfs) (.of_map _ hgs)).2 fun f => ?_
  rw [← get?_eq_some_iff hfs, h, get?_eq_some_iff hgs]

theorem get?_eq_of_perm (hfs : (fs.map (·.1)).Nodup) (h : fs.Perm gs) :
    fs.get? name = gs.get? name := by
  have hgs : (gs.map (·.1)).Nodup := (h.map _).nodup_iff.1 hfs
  refine Option.ext fun v => ?_
  rw [get?_eq_some_iff hfs, get?_eq_some_iff hgs, h.mem_iff]

-- Sorted by names of their own, fields do not show the order in which they stood before.
theorem mergeSort_eq_of_perm (hfs : (fs.map (·.1)).Nodup) (h : fs.Perm gs) :
    fs.mergeSort (fun f g => decide (f.1 ≤ g.1)) = gs.mergeSort fun f g => decide (f.1 ≤ g.1) := by
  have hsorted (hs : Fields α) :
      (hs.mergeSort fun f g => decide (f.1 ≤ g.1)).Pairwise fun f g => f.1 ≤ g.1 := by
    refine (List.pairwise_mergeSort (fun f g k hfg hgk => ?_) (fun f g => ?_) hs).imp
      of_decide_eq_true
    · exact decide_eq_true (String.le_trans (of_decide_eq_true hfg) (of_decide_eq_true hgk))
    · rw [Bool.or_eq_true, decide_eq_true_iff, decide_eq_true_iff]
      exact String.le_total _ _
  refine List.Perm.eq_of_pairwise (fun f g hf hg hfg hgf => ?_) (hsorted fs) (hsorted gs)
    (((List.mergeSort_perm fs _).trans h).trans (List.mergeSort_perm gs _).symm)
  -- two fields of one name are the same
  have hf' : f ∈ fs := (List.mergeSort_perm fs _).mem_iff.1 hf
  have hg' : g ∈ fs := h.mem_iff.2 ((List.mergeSort_perm gs _).mem_iff.1 hg)
  exact List.inj_on_of_nodup_map hfs hf' hg' (String.le_antisymm hfg hgf)

end Fields

namespace Row

variable {r s : Row} {cells : List (String × Value)} {name : String} {v : Value}

/-! ## Runs of assignments -/

theorem ofList_concat (cells : List (String × Value)) (name : String) (v : Value) :
    ofList (cells ++ [(name, v)]) = (ofList cells).set name v := by
  rw [ofList, List.foldl_concat, ofList]

theorem names_set : (r.set name v).names = if name ∈ r.names then r.names else r.names ++ [name] :=
  Fields.names_insert

-- The names are the assigned ones in the order of their first assignment.
theorem names_ofList (cells : List (String × Value)) :
    (ofList cells).names = (cells.map (·.1)).eraseDups := by
  induction cells using List.reverseRecOn with
  | nil => rfl
  | append_singleton cells cell ih =>
    have hnodup := nodup_eraseDups (cells.map (·.1))
    rw [ofList_concat, names_set, ih, List.map_append, List.map_singleton,
      ← eraseDups_eraseDups_append]
    split
    next h => exact (eraseDups_concat_of_mem hnodup h).symm
    next h => exact (eraseDups_concat_of_notMem hnodup h).symm

theorem nodup_names (cells : List (String × Value)) : (ofList cells).names.Nodup := by
  rw [names_ofList]
  exact nodup_eraseDups _

/-- The last of the assignments to the name is one of the value. -/
def LastAssigned (cells : List (String × Value)) (name : String) (v : Value) : Prop :=
  ∃ before after, cells = before ++ (name, v) :: after ∧ name ∉ after.map (·.1)

theorem get?_ofList_eq_some_iff :
    (ofList cells).get? name = some v ↔ LastAssigned cells name v := by
  rw [get?_ofList, Fields.get?_eq_some_iff_append]
  constructor
  · rintro ⟨before, after, hcells, hbefore⟩
    refine ⟨after.reverse, before.reverse, ?_, by rwa [List.map_reverse, List.mem_reverse]⟩
    rw [← List.reverse_reverse cells, hcells, List.reverse_append, List.reverse_cons,
      List.append_assoc, List.singleton_append]
  · rintro ⟨before, after, rfl, hafter⟩
    refine ⟨after.reverse, before.reverse, ?_, by rwa [List.map_reverse, List.mem_reverse]⟩
    rw [List.reverse_append, List.reverse_cons, List.append_assoc, List.singleton_append]

theorem get?_ofList_eq_none_iff :
    (ofList cells).get? name = none ↔ name ∉ cells.map (·.1) := by
  rw [get?_ofList, Fields.get?_eq_none_iff, List.map_reverse, List.mem_reverse]

theorem size_ofList (cells : List (String × Value)) :
    (ofList cells).size = (cells.map (·.1)).toFinset.card := by
  have hsame : (cells.map (·.1)).toFinset = (ofList cells).names.toFinset := by
    rw [names_ofList]
    ext name
    rw [List.mem_toFinset, List.mem_toFinset, List.mem_eraseDups]
  rw [hsame, List.toFinset_card_of_nodup (nodup_names cells), names, List.length_map, size]

/-! ## Rows as objects -/

/-- The fields of the object of a row, in the order of the cells. -/
def fields (r : Row) : Fields Json :=
  r.cells.map fun cell => (cell.1, cell.2.json)

theorem names_fields (r : Row) : r.fields.map (·.1) = r.names := by
  rw [fields, names, List.map_map]
  rfl

theorem toObject_eq (r : Row) :
    r.toObject = .obj (r.fields.mergeSort fun f g => decide (f.1 ≤ g.1)) :=
  rfl

-- The order of the fields is not that of the cells, but what stands under a name is the same.
theorem field?_toObject (h : r.names.Nodup) (name : String) :
    r.toObject.field? name = (r.get? name).map Value.json := by
  rw [← names_fields] at h
  have hperm := (List.mergeSort_perm r.fields fun f g => decide (f.1 ≤ g.1)).symm
  rw [toObject_eq, get?, ← Fields.get?_map Value.json]
  exact (Fields.get?_eq_of_perm h hperm).symm

-- Rows with the same values differ in their order at most, and objects have no order of their own.
theorem toObject_eq_of_get?_eq (hr : r.names.Nodup) (hs : s.names.Nodup)
    (h : ∀ name, r.get? name = s.get? name) : r.toObject = s.toObject := by
  have hperm : r.fields.Perm s.fields := (Fields.perm_of_get?_eq hr hs h).map _
  rw [toObject_eq, toObject_eq, Fields.mergeSort_eq_of_perm (by rwa [names_fields]) hperm]

/-- The row has one cell for each assigned name, in the order of the first assignments, with the
value of the last one. -/
structure IsMapOf (r : Row) (cells : List (String × Value)) : Prop where
  names : r.names = (cells.map (·.1)).eraseDups
  distinct : r.names.Nodup
  size : r.size = (cells.map (·.1)).toFinset.card
  unassigned : ∀ name, r.get? name = none ↔ name ∉ cells.map (·.1)
  assigned : ∀ name v, r.get? name = some v ↔ LastAssigned cells name v

theorem isMapOf_ofList (cells : List (String × Value)) : (ofList cells).IsMapOf cells where
  names := names_ofList cells
  distinct := nodup_names cells
  size := size_ofList cells
  unassigned _ := get?_ofList_eq_none_iff
  assigned _ _ := get?_ofList_eq_some_iff

/-- A row is the ordered map of the assignments that built it. One more assignment leaves every cell
in its place and changes no value but that of its name. The object of the row has the same names and
values, and rows that give the same values have the same object and are read alike. -/
theorem ofList_ordered_map (cells : List (String × Value)) :
    (ofList cells).IsMapOf cells ∧
    (∀ name v,
      (∀ (i : Nat) other w, (ofList cells).cells[i]? = some (other, w) →
        ((ofList cells).set name v).cells[i]? = some (other, if other = name then v else w)) ∧
      ∀ other, other ≠ name →
        ((ofList cells).set name v).get? other = (ofList cells).get? other) ∧
    (∃ fields, (ofList cells).toObject = .obj fields ∧
      (fields.map (·.1)).Perm (ofList cells).names ∧
      ∀ name, (ofList cells).toObject.field? name = ((ofList cells).get? name).map Value.json) ∧
    ∀ others, (∀ name, (ofList others).get? name = (ofList cells).get? name) →
      (ofList others).toObject = (ofList cells).toObject ∧
      ∀ {α : Type} (target : Target α),
        (ofList others).readAs target = (ofList cells).readAs target := by
  have hnodup := nodup_names cells
  refine ⟨isMapOf_ofList cells, fun name v => ⟨fun i other w hcell => ?_, fun other hother => ?_⟩,
    ⟨_, toObject_eq _, ?_, field?_toObject hnodup⟩, fun others h => ?_⟩
  · rw [set, Fields.getElem?_insert hnodup hcell]
    dsimp only
    split
    next heq => rw [heq]
    next => rfl
  · rw [get?_set, if_neg (Ne.symm hother)]
  · rw [← names_fields]
    exact (List.mergeSort_perm _ _).map _
  · have hobject := toObject_eq_of_get?_eq (nodup_names others) hnodup h
    refine ⟨hobject, fun target => ?_⟩
    rw [readAs, readAs, hobject]

/-- A price that is corrected after a name has been given. -/
def corrected : List (String × Value) :=
  [("price", .int32 5), ("name", .string "Ann"), ("price", .int32 7)]

-- The second price takes the place of the first one, and two orders of assignments give one object.
theorem ofList_ordered_map_corrected :
    (ofList corrected).names = ["price", "name"] ∧
      LastAssigned corrected "price" (.int32 7) ∧
      ofList [("name", .string "Ann"), ("price", .int32 7)] ≠ ofList corrected ∧
      (ofList [("name", .string "Ann"), ("price", .int32 7)]).toObject =
        (ofList corrected).toObject := by
  obtain ⟨hmap, -, -, hobjects⟩ := ofList_ordered_map corrected
  refine ⟨hmap.names.trans (by decide), (hmap.assigned _ _).1 (by decide), by decide,
    (hobjects _ fun name => ?_).1⟩
  exact Fields.get?_eq_of_perm (nodup_names _) (by decide)

end Row

end PathQuery
