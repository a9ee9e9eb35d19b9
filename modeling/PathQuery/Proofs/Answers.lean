import PathQuery.Proofs.Columns
import PathQuery.Proofs.Row

/-!
# Rows that answer a plan

A plan is answered by rows with one value for each of its columns, under the name of the column. The
name is that of the property alone, so columns from different ends of the schema may share it, and
then the row keeps only the last of their values.
-/

namespace PathQuery

namespace Plan

/-- The row that has the values of the columns under their names, assigned in their order. -/
def row (p : Plan) (vs : List Value) : Row :=
  Row.ofList ((p.columns.map (·.name)).zip vs)

/-- Whatever the values are, a row with one for each column gives all of them back by the names of
their columns. -/
def Retrieves (p : Plan) : Prop :=
  ∀ vs : List Value, vs.length = p.columns.length →
    ∀ (i : Nat) (c : Column) (v : Value), p.columns[i]? = some c → vs[i]? = some v →
      (p.row vs).get? c.name = some v

/-- Rows give back all values exactly if no two columns have the same name. -/
theorem retrieves_iff (p : Plan) : p.Retrieves ↔ (p.columns.map (·.name)).Nodup := by
  constructor
  · intro h
    refine List.nodup_iff_getElem?_ne_getElem?.2 fun i j hij hj hsame => ?_
    rw [List.length_map] at hj
    -- a value of its own for the first of two columns cannot be told from that of the second
    have hlength : ((List.replicate p.columns.length (Value.bool true)).set i .null).length =
        p.columns.length := by
      rw [List.length_set, List.length_replicate]
    have hfirst := h _ hlength i p.columns[i] .null (List.getElem?_eq_getElem (by omega))
      (List.getElem?_set_self (by rw [List.length_replicate]; omega))
    have hsecond := h _ hlength j p.columns[j] (.bool true) (List.getElem?_eq_getElem hj) (by
      rw [List.getElem?_set_ne (by omega), List.getElem?_replicate_of_lt hj])
    rw [List.getElem?_map, List.getElem?_map, List.getElem?_eq_getElem (by omega),
      List.getElem?_eq_getElem hj] at hsame
    have hname : p.columns[i].name = p.columns[j].name := Option.some.inj hsame
    rw [hname] at hfirst
    cases hfirst.symm.trans hsecond
  · intro h vs hlength i c v hc hv
    have hcell : (c.name, v) ∈ (p.columns.map (·.name)).zip vs := by
      refine List.mem_of_getElem? (i := i) ?_
      rw [List.getElem?_zip_eq_some, List.getElem?_map, hc]
      exact ⟨rfl, hv⟩
    refine Row.get?_ofList_of_mem ?_ hcell
    rwa [List.map_fst_zip (by rw [List.length_map, hlength])]

end Plan

namespace Spec

variable {settings : Settings} {spec : Spec} {plan : Plan}

-- Selections of plain columns bring one column each, named after the property.
theorem names_columns_of_plain (t : JoinTree)
    (hplain : ∀ p ∈ spec.selections, p.terminal.declared.isNavigation = false) :
    (spec.columns t).map (·.name) = spec.selections.map (·.terminal.name) := by
  have hsingle : spec.selections.map (Condition.selectedColumns spec.schema t) =
      spec.selections.map fun p => [⟨t.reference p.way p.terminal.name, p.terminal.name⟩] :=
    List.map_congr_left fun p hp => Condition.selectedColumns_of_column (hplain p hp)
  rw [columns_eq_flatten, hsingle, ← List.flatMap_def, List.map_flatMap, List.map_eq_flatMap]
  rfl

/-- Selections of plain columns give columns that are named, one by one, after the properties that
their paths end in. The names differ, and rows give all values back by them, exactly if no two of
the paths end in properties of one name. -/
theorem toPlan_retrieves_iff (h : spec.Reachable) (run : spec.toPlan settings = .ok plan)
    (hplain : ∀ p ∈ spec.selections, p.terminal.declared.isNavigation = false) :
    plan.columns.map (·.name) = spec.selections.map (·.terminal.name) ∧
    ((plan.columns.map (·.name)).Nodup ↔ (spec.selections.map (·.terminal.name)).Nodup) ∧
    (plan.Retrieves ↔ (spec.selections.map (·.terminal.name)).Nodup) := by
  obtain ⟨c, clauses, hcompiled⟩ := (toPlan_outcomes settings h).1 plan run
  have hnames : plan.columns.map (·.name) = spec.selections.map (·.terminal.name) := by
    rw [hcompiled.columns_of_start.1]
    exact names_columns_of_plain c.tree hplain
  refine ⟨hnames, ?_, ?_⟩
  · rw [hnames]
  · rw [Plan.retrieves_iff, hnames]

/-- The name of employees and the age of their managers. -/
def nameAndAge : Spec :=
  (chain [⟨.select (.tuple [.chain ["name"], .chain ["manager", "age"]]), false⟩]
    ⟨staffStart, []⟩).2.state

def nameAndAgePlan : Plan where
  entity := "Employee"
  rootAlias := "this"
  joins := [⟨"this", "manager", "alias_1", .inner⟩]
  predicates := []
  orders := []
  columns := [⟨"this.name", "name"⟩, ⟨"alias_1.age", "age"⟩]
  page := .unset
  resultType := none

-- A name and an age can be told apart.
theorem toPlan_retrieves_iff_nameAndAge :
    nameAndAge.Reachable ∧ nameAndAge.toPlan .standard = .ok nameAndAgePlan ∧
      (∀ p ∈ nameAndAge.selections, p.terminal.declared.isNavigation = false) ∧
      nameAndAgePlan.Retrieves ∧
      (nameAndAgePlan.row [.string "Ann", .int32 50]).get? "name" = some (.string "Ann") := by
  have hreachable : nameAndAge.Reachable := Reachable.chain reachable_staffStart _
  have hrun : nameAndAge.toPlan .standard = .ok nameAndAgePlan := by cbv
  have hplain : ∀ p ∈ nameAndAge.selections, p.terminal.declared.isNavigation = false := by decide
  have hretrieves : nameAndAgePlan.Retrieves :=
    (toPlan_retrieves_iff hreachable hrun hplain).2.2.2 (by decide)
  exact ⟨hreachable, hrun, hplain, hretrieves,
    hretrieves [.string "Ann", .int32 50] rfl 0 _ _ rfl rfl⟩

/-- The names of employees and those of their managers. -/
def bothNames : Spec :=
  (chain [⟨.select (.tuple [.chain ["name"], .chain ["manager", "name"]]), false⟩]
    ⟨staffStart, []⟩).2.state

def bothNamesPlan : Plan where
  entity := "Employee"
  rootAlias := "this"
  joins := [⟨"this", "manager", "alias_1", .inner⟩]
  predicates := []
  orders := []
  columns := [⟨"this.name", "name"⟩, ⟨"alias_1.name", "name"⟩]
  page := .unset
  resultType := none

-- The paths differ, but both columns have the one name, and a row keeps the manager's name only.
theorem columns_share_name_bothNames :
    bothNames.Reachable ∧ bothNames.toPlan .standard = .ok bothNamesPlan ∧
      bothNames.selections.Nodup ∧
      (∀ p ∈ bothNames.selections, p.terminal.declared.isNavigation = false) ∧
      ¬ (bothNamesPlan.columns.map (·.name)).Nodup ∧ ¬ bothNamesPlan.Retrieves ∧
      bothNamesPlan.row [.string "Ann", .string "Bob"] = ⟨[("name", .string "Bob")]⟩ := by
  have hshared : ¬ (bothNamesPlan.columns.map (·.name)).Nodup := by decide
  exact ⟨Reachable.chain reachable_staffStart _, by cbv, by decide, by decide, hshared,
    fun h => hshared ((Plan.retrieves_iff _).1 h), by decide⟩

end Spec

end PathQuery
