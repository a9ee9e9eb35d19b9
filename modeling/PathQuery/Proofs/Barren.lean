import PathQuery.Proofs.Columns

/-!
# Selections that bring no columns

A selected relationship stands for the plain columns of the entity that it leads to, and that entity
may have none. A specification that selects nothing else has a plan without columns, like one that
selects nothing at all: its statement asks for everything of the root entity, and the result type is
left out. With any other selection the statement asks for the columns, and the result type is bound.
-/

namespace PathQuery

/-- The path ends in a relationship to an entity that has relationships only. -/
def Path.Barren (schema : Schema) (p : Path) : Prop :=
  ∃ name entity, (p.terminal.declared = .reference name ∨
    p.terminal.declared = .collection (.reference name)) ∧ schema.entity? name = some entity ∧
    ∀ q ∈ entity.properties, q.declared.isNavigation = true

/-- The statement of a plan with a text for what it selects. -/
def Plan.sqlSelecting (p : Plan) (selected : String) : String :=
  "SELECT " ++ selected ++ " FROM " ++ p.entity ++ " " ++ p.rootAlias ++ p.joinSql ++
    p.whereSql ++ p.orderSql ++ p.page.sql

namespace Plan

variable {plan : Plan}

theorem sql_eq_sqlSelecting (p : Plan) : p.sql = p.sqlSelecting p.selectSql :=
  rfl

theorem selectSql_of_nil (h : plan.columns = []) : plan.selectSql = plan.rootAlias ++ ".*" := by
  rw [selectSql, h]

theorem selectSql_of_ne_nil (h : plan.columns ≠ []) :
    plan.selectSql = ", ".intercalate (plan.columns.map Column.sql) := by
  unfold selectSql
  split
  next hnil => exact absurd hnil h
  next => rfl

end Plan

-- A plain column stands for itself, so only a relationship can stand for nothing.
theorem Path.StandsFor.eq_nil_iff {schema : Schema} {named : List String → String → Prop} {p : Path}
    {columns : List Column} (h : p.StandsFor schema named columns) :
    columns = [] ↔ p.Barren schema := by
  cases h with
  | column ha hplain =>
    refine iff_of_false (List.cons_ne_nil _ _) ?_
    rintro ⟨name, entity, hdeclared | hdeclared, -⟩
    · rw [hdeclared] at hplain
      cases hplain
    · rw [hdeclared] at hplain
      cases hplain
  | @relationship a name entity ha hdeclared he =>
    have hall : (∀ q ∈ entity.properties, q.declared.isNavigation = true) ↔ p.Barren schema := by
      refine ⟨fun hall => ⟨name, entity, hdeclared, he, hall⟩, ?_⟩
      rintro ⟨name', entity', hdeclared', he', hall⟩
      have hname : some name' = some name := by
        rw [← Declared.target?_eq_some_iff.2 hdeclared, ← Declared.target?_eq_some_iff.2 hdeclared']
      rw [Option.some.inj hname, he] at he'
      rwa [Option.some.inj he']
    rw [List.map_eq_nil_iff, List.filter_eq_nil_iff, ← hall]
    simp only [Bool.not_eq_true', Bool.not_eq_false]

namespace Spec

variable {settings : Settings} {spec : Spec} {plan : Plan}

theorem Selects.eq_nil_iff {named : List String → String → Prop} {columns : List Column}
    (h : spec.Selects named columns) :
    columns = [] ↔ ∀ p ∈ spec.selections, p.Barren spec.schema := by
  obtain ⟨parts, hparts, rfl⟩ := h
  rw [List.flatten_eq_nil_iff]
  generalize spec.selections = ps at hparts
  induction hparts with
  | nil => exact iff_of_true (List.forall_mem_nil _) (List.forall_mem_nil _)
  | cons hp _ ih => rw [List.forall_mem_cons, List.forall_mem_cons, hp.eq_nil_iff, ih]

/-- A plan has columns exactly if some condition selects anything but a relationship to an entity
without plain columns. Then the statement asks for these columns and the result type is bound; if
not, the statement asks for everything of the root entity and no result type is bound. -/
theorem toPlan_selects_iff (h : spec.Reachable) (run : spec.toPlan settings = .ok plan) :
    (plan.columns ≠ [] ↔
      ∃ c ∈ spec.conditions, c.kind = .select ∧
        ∃ p, c.path = some p ∧ ¬ p.Barren spec.schema) ∧
    (plan.columns ≠ [] →
      plan.sql = plan.sqlSelecting (", ".intercalate (plan.columns.map Column.sql)) ∧
      plan.resultType = spec.resultType) ∧
    (plan.columns = [] →
      plan.sql = plan.sqlSelecting (plan.rootAlias ++ ".*") ∧ plan.resultType = none) := by
  obtain ⟨c, clauses, hcompiled⟩ := (toPlan_outcomes settings h).1 plan run
  obtain ⟨hcolumns, htype⟩ := hcompiled.columns_of_start
  have hselects : spec.Selects (fun _ _ => True) plan.columns := by
    rw [hcolumns]
    exact selects_columns h.usable fun _ _ => trivial
  refine ⟨?_, fun hne => ⟨?_, ?_⟩, fun hnil => ⟨?_, ?_⟩⟩
  · rw [Ne, hselects.eq_nil_iff]
    constructor
    · intro hsome
      obtain ⟨p, hp⟩ := not_forall.1 hsome
      obtain ⟨hmem, hbarren⟩ := Classical.not_imp.1 hp
      obtain ⟨c, hc, hkind, hpath⟩ := mem_pathsOf_iff.1 hmem
      exact ⟨c, hc, hkind, p, hpath, hbarren⟩
    · rintro ⟨c, hc, hkind, p, hpath, hbarren⟩ hall
      exact hbarren (hall p (mem_pathsOf_iff.2 ⟨c, hc, hkind, hpath⟩))
  · rw [Plan.sql_eq_sqlSelecting, Plan.selectSql_of_ne_nil hne]
  · rw [htype, if_neg hne]
  · rw [Plan.sql_eq_sqlSelecting, Plan.selectSql_of_nil hnil]
  · rw [htype, if_pos hnil]

/-- The plan of the employees whose columns are asked for as managers. -/
def managersPlan : Plan :=
  { staffPlan with resultType := some "Manager" }

-- The manager that the employees select has columns, so the type that is asked for is bound.
theorem toPlan_selects_iff_managers :
    (staff.withResultType "Manager").Reachable ∧
      (staff.withResultType "Manager").toPlan .standard = .ok managersPlan ∧
      managersPlan.columns ≠ [] ∧
      (∃ c ∈ staff.conditions, c.kind = .select ∧
        ∃ p, c.path = some p ∧ ¬ p.Barren staff.schema) ∧
      managersPlan.sql = managersPlan.sqlSelecting "alias_1.name AS name, alias_1.age AS age" ∧
      managersPlan.resultType = some "Manager" := by
  have hreachable : (staff.withResultType "Manager").Reachable := reachable_staff.withResultType _
  have hrun : (staff.withResultType "Manager").toPlan .standard = .ok managersPlan := by cbv
  obtain ⟨hiff, hselected, -⟩ := toPlan_selects_iff hreachable hrun
  have hne : managersPlan.columns ≠ [] := List.cons_ne_nil _ _
  exact ⟨hreachable, hrun, hne, hiff.1 hne, hselected hne⟩

/-- Employees with their badges, which have nothing but an owner. -/
def badgeSchema : Schema :=
  ⟨[⟨"Employee", [⟨"name", .scalar .string⟩, ⟨"badge", .reference "Badge"⟩]⟩,
    ⟨"Badge", [⟨"owner", .reference "Employee"⟩]⟩]⟩

/-- The badges of employees, asked for as cards. -/
def badges : Spec :=
  (chain [⟨.select (.chain ["badge"]), false⟩]
    ⟨⟨badgeSchema, "Employee", .inner, [], none⟩, []⟩).2.state.withResultType "Card"

def badgesPlan : Plan :=
  { Plan.start "Employee" "this" with joins := [⟨"this", "badge", "alias_1", .inner⟩] }

-- Badges are selected, and the statement asks for employees instead.
theorem badges_select_everything :
    badges.Reachable ∧ (∃ c ∈ badges.conditions, c.kind = .select) ∧
      badges.toPlan .standard = .ok badgesPlan ∧ badgesPlan.columns = [] ∧
      badgesPlan.sql = "SELECT this.* FROM Employee this INNER JOIN this.badge alias_1" ∧
      badges.resultType = some "Card" ∧ badgesPlan.resultType = none := by
  refine ⟨?_, by decide, by cbv, rfl, by decide, rfl, rfl⟩
  exact .withResultType (.chain (.start (show start badgeSchema "Employee" = .ok _ by rfl)) _) _

end Spec

end PathQuery
