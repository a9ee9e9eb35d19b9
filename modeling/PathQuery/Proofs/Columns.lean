import PathQuery.Proofs.Spec.WellFormed
import PathQuery.Proofs.Trails

/-!
# The columns of a plan

A plan has the columns of its selections, one selection after the other, and no others. A plain
column stands for itself, a relationship for all plain columns of the entity that it leads to. The
result type comes with the columns.
-/

namespace PathQuery

open Condition (Kind)

/-- The columns that a selected path stands for, when it is known which alias the chains have: the
end of the path under the alias of the way to it, or the plain columns of the related entity, in the
order of their declaration, under the alias of the relationship itself. -/
inductive Path.StandsFor (schema : Schema) (named : List String → String → Prop) (p : Path) :
    List Column → Prop where
  | column {a : String} (ha : named p.way a) (h : p.terminal.declared.isNavigation = false) :
    StandsFor schema named p [⟨a ++ "." ++ p.terminal.name, p.terminal.name⟩]
  | relationship {a name : String} {entity : Entity} (ha : named p.names a)
    (h : p.terminal.declared = .reference name ∨
      p.terminal.declared = .collection (.reference name))
    (he : schema.entity? name = some entity) :
    StandsFor schema named p
      ((entity.properties.filter fun q => !q.declared.isNavigation).map fun q =>
        ⟨a ++ "." ++ q.name, q.name⟩)

namespace Spec

/-- The columns are those that the selections stand for, one selection after the other. -/
def Selects (spec : Spec) (named : List String → String → Prop) (columns : List Column) : Prop :=
  ∃ parts, List.Forall₂ (Path.StandsFor spec.schema named) spec.selections parts ∧
    columns = parts.flatten

variable {settings : Settings} {spec : Spec} {t : JoinTree} {p : Path}
  {named : List String → String → Prop}

-- The paths of a kind are those that its conditions name.
theorem mem_pathsOf_iff {kind : Kind} :
    p ∈ spec.pathsOf kind ↔ ∃ c ∈ spec.conditions, c.kind = kind ∧ c.path = some p := by
  simp only [pathsOf, List.mem_filterMap, List.mem_filter, beq_iff_eq, and_assoc]

-- Conditions that select nothing bring no columns.
theorem columns_eq_flatten (spec : Spec) (t : JoinTree) :
    spec.columns t = (spec.selections.map (Condition.selectedColumns spec.schema t)).flatten := by
  rw [columns, selections, pathsOf]
  induction spec.conditions with
  | nil => rfl
  | cons c cs ih =>
    rw [List.flatMap_cons, ih]
    by_cases hkind : c.kind = .select
    · rw [List.filter_cons_of_pos (by rw [hkind]; rfl), List.filterMap_cons]
      cases hpath : c.path with
      | none => rw [Condition.columns, hpath]; rfl
      | some p => rw [Condition.columns, hpath, hkind]; rfl
    · rw [List.filter_cons_of_neg (by rwa [beq_iff_eq]), Condition.columns_eq_nil hkind,
        List.nil_append]

-- A selection uses the way to its end, and a selected relationship is used as a whole.
theorem mem_chains_of_mem_selections (hp : p ∈ spec.selections) :
    (p.way = [] ∨ p.way ∈ spec.chains) ∧
      (p.terminal.declared.isNavigation = true → p.names ∈ spec.chains) := by
  obtain ⟨c, hc, hkind, hpath⟩ := mem_pathsOf_iff.1 hp
  refine ⟨(Condition.mem_chains_of_path hpath).imp_right (mem_chains_of_mem hc),
    fun hnav => mem_chains_of_mem hc ?_⟩
  rw [Condition.chains_of_path hpath, Condition.joinsEnd_of_select hkind, if_pos hnav]
  exact List.mem_append_right _ List.mem_cons_self

/-- A selection stands for its columns as soon as the chains in use have the aliases of the tree. -/
theorem standsFor_selectedColumns (h : ∀ c ∈ spec.conditions, c.Usable spec.schema)
    (hnamed : ∀ chain, chain = [] ∨ chain ∈ spec.chains → named chain (t.aliasAt chain))
    (hp : p ∈ spec.selections) :
    p.StandsFor spec.schema named (Condition.selectedColumns spec.schema t p) := by
  obtain ⟨hway, hnames⟩ := mem_chains_of_mem_selections hp
  cases hnav : p.terminal.declared.isNavigation with
  | false =>
    rw [Condition.selectedColumns_of_column hnav]
    exact .column (hnamed _ hway) hnav
  | true =>
    obtain ⟨c, hc, hkind, hpath⟩ := mem_pathsOf_iff.1 hp
    obtain ⟨name, entity, hdeclared, he⟩ := (h c hc).exists_entity hpath hkind hnav
    rw [Condition.selectedColumns_of_entity hnav (Declared.target?_eq_some_iff.2 hdeclared)
      (Schema.entity_eq_ok_iff.2 he)]
    exact .relationship (hnamed _ (.inr (hnames hnav))) hdeclared he

theorem selects_columns (h : ∀ c ∈ spec.conditions, c.Usable spec.schema)
    (hnamed : ∀ chain, chain = [] ∨ chain ∈ spec.chains → named chain (t.aliasAt chain)) :
    spec.Selects named (spec.columns t) := by
  refine ⟨_, ?_, columns_eq_flatten spec t⟩
  rw [List.forall₂_map_right_iff, List.forall₂_same]
  exact fun p hp => standsFor_selectedColumns h hnamed hp

/-! ## Compiled columns -/

namespace Compiled

variable {entity rootAlias : String} {c : Compilation} {clauses : List Predicate} {after : Plan}

-- A plan that was fresh has the columns of the specification, and the result type with them.
theorem columns_of_start (h : Compiled settings spec (.start entity rootAlias) c clauses after) :
    after.columns = spec.columns c.tree ∧
      after.resultType = if after.columns = [] then none else spec.resultType := by
  have hcolumns : after.columns = spec.columns c.tree := by
    rw [h.plan]
    cases spec.columns c.tree <;> rfl
  refine ⟨hcolumns, ?_⟩
  rw [hcolumns, h.plan]
  cases spec.columns c.tree <;> simp [Plan.start]

-- Every chain in use ends in a node, which has its alias.
theorem exists_node (h : Compiled settings spec (.start entity rootAlias) c clauses after)
    {chain : List String} (hc : chain = [] ∨ chain ∈ spec.chains) :
    ∃ id, c.tree.id? chain = some id ∧ c.tree.aliasOf id = c.tree.aliasAt chain := by
  rw [← h.chains] at hc
  obtain ⟨id, hid⟩ := h.sound.exists_id? hc
  exact ⟨id, hid, h.sound.aliasOf_of_id? hid⟩

-- The joins lead from the alias of every chain in use along that chain.
theorem trail?_aliasOf
    (h : Compiled settings spec (.start spec.root settings.rootAlias) c clauses after)
    {chain : List String} (hc : chain = [] ∨ chain ∈ spec.chains) :
    after.trail? after.joins.length (aliasOf settings spec chain) = some chain := by
  have hroot : after.rootAlias = settings.rootAlias := by
    rw [h.plan]
    rfl
  have htrail := Plan.trail?_chainAlias (p := after) (by rw [hroot]; exact h.joins_of_start)
    h.closedChains (by rw [hroot]; exact h.generatedAlias_ne_of_start) hc
  rwa [hroot] at htrail

end Compiled

/-- The columns of a plan are those of the selections and nothing else, each of them under the alias
from which the joins of the plan, or the nodes of its join tree, lead along the chain of the
selection. A compilation into a fresh plan answers their number, and a plan has the result type of
its specification exactly if it has columns. -/
theorem compile_columns (h : spec.Reachable) :
    (∀ plan, spec.toPlan settings = .ok plan →
      spec.Selects (fun chain a => a = aliasOf settings spec chain ∧
        plan.trail? plan.joins.length a = some chain) plan.columns ∧
      plan.resultType = if plan.columns = [] then none else spec.resultType) ∧
    ∀ entity rootAlias events c t,
      spec.compile settings ⟨.start entity rootAlias, events⟩ = .ok c t →
      spec.Selects (fun chain a => ∃ id, c.tree.id? chain = some id ∧ c.tree.aliasOf id = a)
        t.state.columns ∧
      c.columns = t.state.columns.length ∧
      t.state.resultType = if t.state.columns = [] then none else spec.resultType := by
  refine ⟨fun plan run => ?_, fun entity rootAlias events c t run => ?_⟩
  · obtain ⟨c, clauses, hcompiled⟩ := (toPlan_outcomes settings h).1 plan run
    obtain ⟨hcolumns, htype⟩ := hcompiled.columns_of_start
    refine ⟨?_, htype⟩
    rw [hcolumns]
    exact selects_columns h.usable fun chain hc =>
      ⟨hcompiled.aliasAt chain, by rw [hcompiled.aliasAt]; exact hcompiled.trail?_aliasOf hc⟩
  · obtain ⟨clauses, hcompiled⟩ := (ensures_compile h.usable _).of_ok run
    obtain ⟨hcolumns, htype⟩ := hcompiled.columns_of_start
    refine ⟨?_, ?_, htype⟩
    · rw [hcolumns]
      exact selects_columns h.usable fun _ => hcompiled.exists_node
    · rw [hcompiled.width, hcolumns]

-- The selected manager stands for a name and an age.
theorem compile_columns_staff :
    staff.Reachable ∧ staff.toPlan .standard = .ok staffPlan ∧
      staff.Selects (fun chain a => a = aliasOf .standard staff chain ∧
        staffPlan.trail? staffPlan.joins.length a = some chain)
        [⟨"alias_1.name", "name"⟩, ⟨"alias_1.age", "age"⟩] ∧
      staffPlan.resultType = none := by
  obtain ⟨hselects, htype⟩ := (compile_columns reachable_staff).1 staffPlan toPlan_staff
  exact ⟨reachable_staff, toPlan_staff, hselects, htype⟩

end Spec

end PathQuery
