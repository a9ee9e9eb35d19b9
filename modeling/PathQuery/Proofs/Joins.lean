import PathQuery.Proofs.References

/-!
# The joins of a plan

A plan joins exactly the chains that its specification uses, each of them once and in the order of
first use.
-/

namespace PathQuery.Spec

variable {settings : Settings} {spec : Spec} {plan : Plan}

/-- The joins of a plan are numbered as their chains are first used, each of them under the alias of
the chain before it. No relationship of an aliased entity is joined twice, and all references along
one chain have its one alias. -/
theorem toPlan_joins (h : spec.Reachable) (run : spec.toPlan settings = .ok plan) :
    plan.joins.length = spec.chains.length ∧
    (∀ k chain, spec.chains[k]? = some chain →
      ∃ names name parent, chain = names ++ [name] ∧
        plan.joins[k]? =
          some ⟨parent, name, settings.stem ++ Text.naturalText (k + 1), spec.joinKind⟩ ∧
        (names = [] ∧ parent = settings.rootAlias ∨
          ∃ i < k, spec.chains[i]? = some names ∧
            parent = settings.stem ++ Text.naturalText (i + 1))) ∧
    (plan.joins.map fun j => (j.parent, j.property)).Nodup ∧
    Named settings spec plan := by
  rcases (toPlan_outcomes settings h).1 plan run with ⟨c, clauses, hcompiled⟩
  refine ⟨?_, fun k chain hk => ?_, ?_, ?_⟩
  · rw [hcompiled.joins_of_start, chainJoins, List.length_mapIdx]
  · rw [hcompiled.joins_of_start]
    exact hcompiled.closedChains.exists_join settings.rootAlias settings.stem spec.joinKind hk
  · rw [hcompiled.joins_of_start]
    exact nodup_parent_property hcompiled.closedChains hcompiled.generatedAlias_ne_of_start
  · exact hcompiled.named

-- The plan of the employees joins managers and managers of managers.
theorem toPlan_joins_staff :
    staff.Reachable ∧ staff.toPlan .standard = .ok staffPlan ∧
      staff.chains = [["manager"], ["manager", "manager"]] ∧
      staffPlan.joins.length = staff.chains.length ∧
      (staffPlan.joins.map fun j => (j.parent, j.property)).Nodup := by
  have hall := toPlan_joins reachable_staff toPlan_staff
  exact ⟨reachable_staff, toPlan_staff, by decide, hall.1, hall.2.2.1⟩

end PathQuery.Spec
