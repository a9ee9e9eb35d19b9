import PathQuery.Proofs.References

/-!
# The clauses of a plan

A plan has one clause for each group with filters. The terms of a clause are those of the filters of
its group, with all operands, and nothing else of the group comes in.
-/

namespace PathQuery

open Condition (Kind Group)

/-! ## Counting terms -/

-- All clauses together have as many terms as the clauses have one by one.
theorem Plan.size_where (p : Plan) :
    (p.where?.map Predicate.size).getD 0 = Predicate.sizes p.predicates := by
  unfold where?
  split
  next hnil => rw [hnil]; rfl
  next q hone => rw [hone]; rfl
  next => rfl

theorem Condition.Shape.size_eq {property : String} {kind : Kind} {vs : List Value}
    {term : Predicate} (h : Shape property kind vs term) : term.size = 1 := by
  cases h <;> rfl

/-! ## Clauses of groups -/

namespace Spec

/-- One clause for each group with filters, in the order of the groups: a disjunction of the images
of its filters in their order, each about the end of its path under the alias of its chain. -/
def Clauses (spec : Spec) (aliasOf : List String → String) (clauses : List Predicate) : Prop :=
  List.Forall₂
    (fun g clause => ∃ terms, clause = .or terms ∧
      List.Forall₂
        (fun c term => ∃ path, c.path = some path ∧
          c.Image (aliasOf path.way ++ "." ++ path.terminal.name) term)
        g.filters terms)
    (spec.groups.filter Group.hasFilter) clauses

variable {settings : Settings} {spec : Spec} {aliasOf : List String → String}
  {clauses : List Predicate} {before after : Plan} {c : Compilation}

-- Terms of filters count once each.
theorem sizes_of_filters {filters : List Condition} {terms : List Predicate}
    (h : List.Forall₂ (fun c term => ∃ path, c.path = some path ∧
      c.Image (aliasOf path.way ++ "." ++ path.terminal.name) term) filters terms) :
    Predicate.sizes terms = filters.length := by
  induction h with
  | nil => rfl
  | cons hterm _ ih =>
    rcases hterm with ⟨path, -, vs, -, hshape⟩
    rw [Predicate.sizes, hshape.size_eq, ih, List.length_cons, Nat.add_comm]

-- As many terms as filters.
theorem Clauses.sizes_eq (h : spec.Clauses aliasOf clauses) :
    Predicate.sizes clauses = (spec.conditions.filter (·.kind.isFilter)).length := by
  rw [← flatMap_filters]
  unfold Clauses at h
  generalize spec.groups.filter Group.hasFilter = groups at h
  -- clause by clause, each with as many terms as its group has filters
  induction h with
  | nil => rfl
  | cons hclause _ ih =>
    rcases hclause with ⟨terms, rfl, hterms⟩
    rw [Predicate.sizes, Predicate.size, sizes_of_filters hterms, ih, List.flatMap_cons,
      List.length_append]

theorem Compiled.clauses_of (h : Compiled settings spec before c clauses after) :
    spec.Clauses (chainAlias before.rootAlias settings.stem spec.chains) clauses := by
  apply h.groups.imp
  intro g _ hclause
  rcases hclause with ⟨terms, rfl, hterms⟩
  refine ⟨terms, rfl, hterms.imp ?_⟩
  intro d term hterm
  rcases hterm with ⟨path, hpath, himage⟩
  rw [JoinTree.reference, h.aliasAt] at himage
  exact ⟨path, hpath, himage⟩

-- The clauses of a plan that was fresh.
theorem Compiled.predicates_of_start {entity rootAlias : String}
    (h : Compiled settings spec (.start entity rootAlias) c clauses after) :
    after.predicates = clauses := by
  rw [h.plan]
  rfl

/-- A compilation into a fresh plan gives one clause for each group with filters, answers their
number, and has as many terms as there are filters. -/
theorem compile_clauses (h : spec.Reachable) :
    (∀ plan, spec.toPlan settings = .ok plan →
      spec.Clauses (chainAlias settings.rootAlias settings.stem spec.chains) plan.predicates ∧
      (plan.where?.map Predicate.size).getD 0 =
        (spec.conditions.filter (·.kind.isFilter)).length) ∧
    ∀ entity rootAlias events c t,
      spec.compile settings ⟨.start entity rootAlias, events⟩ = .ok c t →
      spec.Clauses (chainAlias rootAlias settings.stem spec.chains) t.state.predicates ∧
      c.clauses = t.state.predicates.length ∧
      (t.state.where?.map Predicate.size).getD 0 =
        (spec.conditions.filter (·.kind.isFilter)).length := by
  refine ⟨fun plan run => ?_, fun entity rootAlias events c t run => ?_⟩
  · rcases (toPlan_outcomes settings h).1 plan run with ⟨c, clauses, hcompiled⟩
    have hclauses := hcompiled.clauses_of
    rw [Plan.size_where, hcompiled.predicates_of_start]
    exact ⟨hclauses, hclauses.sizes_eq⟩
  · rcases (ensures_compile h.usable _).of_ok run with ⟨clauses, hcompiled⟩
    have hclauses := hcompiled.clauses_of
    rw [Plan.size_where, hcompiled.predicates_of_start]
    exact ⟨hclauses, hcompiled.count, hclauses.sizes_eq⟩

-- The two alternatives of the employees become one clause with two terms.
theorem compile_clauses_staff :
    staff.Reachable ∧ staff.toPlan .standard = .ok staffPlan ∧
      staff.Clauses (chainAlias "this" "alias_" staff.chains) staffPlan.predicates ∧
      (staffPlan.where?.map Predicate.size).getD 0 = 2 := by
  have hall := (compile_clauses reachable_staff).1 staffPlan toPlan_staff
  exact ⟨reachable_staff, toPlan_staff, hall.1, hall.2.trans (by decide)⟩

end Spec

end PathQuery
