import PathQuery.Proofs.References

/-!
# What references mean

Under valid settings the alias in a reference can be told from its text. The joins of the plan lead
from it back to the root, and spell the chain that the condition was written with.
-/

namespace PathQuery

open Condition (Kind)

namespace Plan

/-- The names of the relationships from the root to an alias, found by following the parents of
joins for at most so many steps. -/
def trail? (p : Plan) : Nat → String → Option (List String)
  | 0, a => if a = p.rootAlias then some [] else none
  | n + 1, a =>
    if a = p.rootAlias then some []
    else (p.joins.find? (·.ownAlias == a)).bind fun j =>
      (p.trail? n j.parent).map (· ++ [j.property])

/-- The text refers to a property at the end of a chain: what stands before its first point is the
root alias or the alias of exactly one join, and the joins spell the chain. -/
def Means (p : Plan) (r : List String × String) (text : String) : Prop :=
  ∃ a, text = a ++ "." ++ r.2 ∧ text.toList.takeWhile (· != '.') = a.toList ∧
    (a = p.rootAlias ∧ (p.joins.map (·.ownAlias)).count a = 0 ∨
      a ≠ p.rootAlias ∧ (p.joins.map (·.ownAlias)).count a = 1) ∧
    p.trail? p.joins.length a = some r.1

variable {p : Plan} {stem : String} {kind : JoinKind} {joined : List (List String)}
  {chain : List String}

theorem trail?_rootAlias (n : Nat) : p.trail? n p.rootAlias = some [] := by
  cases n with
  | zero => exact if_pos rfl
  | succ n => exact if_pos rfl

-- An alias of its own has one join.
theorem find?_ownAlias {j : Join} (h : (p.joins.map (·.ownAlias)).Nodup) (hj : j ∈ p.joins) :
    p.joins.find? (·.ownAlias == j.ownAlias) = some j := by
  cases hfind : p.joins.find? (·.ownAlias == j.ownAlias) with
  | none => exact absurd (beq_self_eq_true j.ownAlias) (List.find?_eq_none.1 hfind j hj)
  | some k =>
    have hsame : k.ownAlias = j.ownAlias := by
      have hk := List.find?_some hfind
      exact beq_iff_eq.1 hk
    rw [List.inj_on_of_nodup_map h (List.mem_of_find?_eq_some hfind) hj hsame]

/-- Following parents from the alias of a chain spells the chain. -/
theorem trail?_generatedAlias (hjoins : p.joins = chainJoins p.rootAlias stem kind joined)
    (hclosed : ClosedChains joined)
    (hroot : ∀ i < joined.length, generatedAlias stem (i + 1) ≠ p.rootAlias) (i : Nat) :
    ∀ chain, joined[i]? = some chain → ∀ n, i < n →
      p.trail? n (generatedAlias stem (i + 1)) = some chain := by
  -- the parent has a smaller number, and one step less is left for it
  induction i using Nat.strong_induction_on with
  | h i ih =>
    intro chain hi n hn
    cases n with
    | zero => omega
    | succ n =>
      rcases hclosed.exists_join p.rootAlias stem kind hi with
        ⟨names, name, parent, hchain, hjoin, hparent⟩
      rw [← hjoins] at hjoin
      have hlen : i < joined.length := (List.getElem?_eq_some_iff.1 hi).1
      have hnodup : (p.joins.map (·.ownAlias)).Nodup := by
        rw [hjoins]
        exact nodup_ownAliases
      have hfind := find?_ownAlias hnodup (List.mem_of_getElem? hjoin)
      have hrest : p.trail? n parent = some names := by
        rcases hparent with ⟨rfl, rfl⟩ | ⟨k, hk, hnames, rfl⟩
        · exact trail?_rootAlias n
        · exact ih k hk names hnames n (by omega)
      rw [trail?, if_neg (hroot i hlen), hfind, Option.bind_some, hrest, hchain]
      rfl

-- The joins lead from the alias of a chain along that chain.
theorem trail?_chainAlias (hjoins : p.joins = chainJoins p.rootAlias stem kind joined)
    (hclosed : ClosedChains joined)
    (hroot : ∀ i < joined.length, generatedAlias stem (i + 1) ≠ p.rootAlias)
    (hc : chain = [] ∨ chain ∈ joined) :
    p.trail? p.joins.length (chainAlias p.rootAlias stem joined chain) = some chain := by
  by_cases hnil : chain = []
  · rw [hnil]
    exact trail?_rootAlias _
  · have hmem := hc.resolve_left hnil
    rw [chainAlias_of_ne_nil hnil]
    refine trail?_generatedAlias hjoins hclosed hroot _ chain (List.getElem?_idxOf hmem) _ ?_
    rw [hjoins, chainJoins, List.length_mapIdx]
    exact List.idxOf_lt_length_iff.2 hmem

-- A property qualified by the alias of a chain refers to the end of that chain.
theorem means_chainAlias (hjoins : p.joins = chainJoins p.rootAlias stem kind joined)
    (hclosed : ClosedChains joined)
    (hroot : ∀ i < joined.length, generatedAlias stem (i + 1) ≠ p.rootAlias)
    (hpoint : ∀ a, a = p.rootAlias ∨ (∃ n, a = generatedAlias stem n) → '.' ∉ a.toList)
    (hc : chain = [] ∨ chain ∈ joined) (name : String) :
    p.Means (chain, name) (chainAlias p.rootAlias stem joined chain ++ "." ++ name) := by
  have htrail := trail?_chainAlias hjoins hclosed hroot hc
  by_cases hnil : chain = []
  · rw [hnil] at htrail ⊢
    -- no join has the root alias, and nothing is left to follow
    refine ⟨p.rootAlias, rfl, takeWhile_point (hpoint _ (.inl rfl)) name, .inl ⟨rfl, ?_⟩, htrail⟩
    rw [hjoins, ownAliases_chainJoins, List.count_eq_zero]
    intro hmem
    rcases List.mem_map.1 hmem with ⟨i, hi, heq⟩
    exact hroot i (List.mem_range.1 hi) heq
  · -- the join with the number of the chain has its alias
    have hlt := List.idxOf_lt_length_iff.2 (hc.resolve_left hnil)
    rw [chainAlias_of_ne_nil hnil] at htrail ⊢
    refine ⟨_, rfl, takeWhile_point (hpoint _ (.inr ⟨_, rfl⟩)) name,
      .inr ⟨hroot _ hlt, ?_⟩, htrail⟩
    rw [hjoins]
    apply List.count_eq_one_of_mem nodup_ownAliases
    rw [ownAliases_chainJoins]
    exact List.mem_map_of_mem (List.mem_range.2 hlt)

end Plan

namespace Spec

variable {settings : Settings} {spec : Spec} {plan : Plan}

/-- Every reference of a plan means the path that its condition was written with: those in terms
come from the filters, those in orders from the orderings and those in columns from the
selections. -/
theorem toPlan_references (hvalid : settings.validate = .ok ()) (h : spec.Reachable)
    (run : spec.toPlan settings = .ok plan) :
    List.Forall₂ plan.Means (spec.references Kind.isFilter)
      (plan.predicates.flatMap Predicate.properties) ∧
    List.Forall₂ plan.Means (spec.references Kind.isOrdering) (plan.orders.map (·.property)) ∧
    List.Forall₂ plan.Means (spec.references (· == .select)) (plan.columns.map (·.property)) := by
  rcases (toPlan_outcomes settings h).1 plan run with ⟨c, clauses, hcompiled⟩
  have hrootAlias : plan.rootAlias = settings.rootAlias := by
    rw [hcompiled.plan]
    rfl
  have hjoins := hcompiled.joins_of_start
  have hroot := hcompiled.generatedAlias_ne_of_start
  have hpoint : ∀ a, a = plan.rootAlias ∨ (∃ n, a = generatedAlias settings.stem n) →
      '.' ∉ a.toList := by
    intro a ha
    rcases ha with rfl | ⟨n, rfl⟩
    · rw [hrootAlias]
      exact Settings.point_notMem_rootAlias hvalid
    · exact Settings.point_notMem_generatedAlias hvalid n
  rw [← hrootAlias] at hjoins hroot
  have hmeans : ∀ p, List.Forall₂ plan.Means (spec.references p)
      ((spec.references p).map fun r => aliasOf settings spec r.1 ++ "." ++ r.2) := by
    intro p
    rw [List.forall₂_map_right_iff, List.forall₂_same]
    intro r hr
    have hend := Plan.means_chainAlias hjoins hcompiled.closedChains hroot hpoint
      (mem_chains_of_mem_references hr) r.2
    rw [hrootAlias] at hend
    exact hend
  rw [hcompiled.named.predicates, hcompiled.named.orders, hcompiled.named.columns]
  exact ⟨hmeans _, hmeans _, hmeans _⟩

-- The plan of the employees orders by the names of their managers.
theorem toPlan_references_staff :
    Settings.standard.validate = .ok () ∧ staff.Reachable ∧
      staff.toPlan .standard = .ok staffPlan ∧
      List.Forall₂ staffPlan.Means [(["manager"], "name")] ["alias_1.name"] := by
  have hvalid : Settings.standard.validate = .ok () := by decide
  have hall := toPlan_references hvalid reachable_staff toPlan_staff
  exact ⟨hvalid, reachable_staff, toPlan_staff, hall.2.1⟩

end Spec

end PathQuery
