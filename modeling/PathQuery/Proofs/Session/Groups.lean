import PathQuery.Proofs.Session.Conditions

/-!
# Carrying out groups

A group with filters brings one clause, the disjunction of the terms of its filters; a group without
filters brings none. The columns of all groups are handed over together at the end.
-/

namespace PathQuery

open Condition (Group)

namespace Condition.Group

def hasFilter (g : Group) : Bool :=
  g.conditions.any fun c => c.kind.isFilter

/-- The filters of a group in their order. -/
def filters (g : Group) : List Condition :=
  g.conditions.filter fun c => c.kind.isFilter

/-- The clause is the disjunction of the terms of the filters. -/
def Clause (t : JoinTree) (g : Group) (clause : Predicate) : Prop :=
  ∃ terms, clause = .or terms ∧ List.Forall₂ (Condition.Becomes t) g.filters terms

theorem filters_eq_nil {g : Group} : g.filters = [] ↔ g.hasFilter = false := by
  rw [filters, hasFilter, List.filter_eq_nil_iff, List.any_eq_false]

end Condition.Group

namespace Session

variable {before : Plan} {s : Logged Session} {t u v : Session} {schema : Schema}
  {gs hs : List Group} {clauses more : List Predicate} {columns others : List Column}

/-- What carrying out groups ensures when it succeeds. -/
structure Served (before : Plan) (schema : Schema) (gs : List Group) (s t : Session)
    (clauses : List Predicate) (columns : List Column) : Prop where
  carried : Carried before (gs.flatMap Group.conditions) s t
  predicates : t.plan.predicates = s.plan.predicates ++ clauses
  clauses : List.Forall₂ (Group.Clause t.tree) (gs.filter Group.hasFilter) clauses
  columns : columns = (gs.flatMap Group.conditions).flatMap (Condition.columns schema t.tree)
  passes : ∀ k ∈ (gs.flatMap Group.conditions).flatMap Condition.checks, k.passes = true

-- Terms come from filters only, so a group has a clause as soon as it has a term.
theorem clauses_of_terms {tree : JoinTree} {g : Group} {terms : List Predicate}
    (h : List.Forall₂ (Condition.Becomes tree) g.filters terms) :
    List.Forall₂ (Group.Clause tree) ([g].filter Group.hasFilter)
      (if terms.isEmpty then [] else [.or terms]) := by
  cases terms with
  | nil =>
    have hnone : g.hasFilter = false := Group.filters_eq_nil.1 (List.forall₂_nil_right_iff.1 h)
    rw [List.filter_singleton, hnone]
    exact .nil
  | cons term terms =>
    have hsome : g.hasFilter = true := by
      by_contra hnone
      rw [Group.filters_eq_nil.2 (Bool.eq_false_iff.2 hnone)] at h
      cases h
    rw [List.filter_singleton, hsome]
    exact .cons ⟨term :: terms, rfl, h⟩ .nil

/-- The conditions of a group and then its clause, if it has one, carry out the group. -/
theorem Fulfilled.served {g : Group} {out : Contribution}
    (h : Fulfilled before schema g.conditions t u out)
    (hclauses : clauses = if out.terms.isEmpty then [] else [.or out.terms]) :
    Served before schema [g] t
      { u with plan := { u.plan with predicates := u.plan.predicates ++ clauses } }
      clauses out.columns := by
  have hsingle : [g].flatMap Group.conditions = g.conditions := List.flatMap_singleton _ g
  refine ⟨⟨h.carried.inStep.congr rfl rfl, ?_, ?_⟩, ?_, ?_, ?_, ?_⟩
  · rw [hsingle]
    exact h.carried.tree
  · rw [hsingle, h.carried.plan]
  · rw [h.predicates]
  · rw [hclauses]
    exact clauses_of_terms h.contributes.terms
  · rw [hsingle]
    exact h.contributes.columns
  · rw [hsingle]
    exact h.passes

-- The terms of a group become at most one clause.
theorem served_group (g : Group) (h : InStep before s.state)
    (husable : ∀ c ∈ g.conditions, c.Usable schema) :
    (group schema g).Ensures s
      (fun out t => ∃ clauses, Served before schema [g] s.state t.state clauses out.2 ∧
        out.1 = clauses.length)
      (fun e _ => Clear before s.state.tree →
        FirstRefusal (g.conditions.flatMap Condition.checks) e) := by
  rw [group, Action.ensures_bind]
  refine (fulfilled_conditions g.conditions h husable).imp ?_ fun _ _ => id
  intro out t hout
  split
  next hempty =>
    have hserved := hout.served (if_pos hempty).symm
    rw [List.append_nil] at hserved
    exact ⟨[], hserved, rfl⟩
  next hsome =>
    rw [Action.ensures_bind]
    exact ensures_issue rfl ⟨[.or out.terms], hout.served (if_neg hsome).symm, rfl⟩

-- Later groups leave the clauses of earlier ones as they are.
theorem Served.trans (h : Served before schema gs t u clauses columns)
    (h' : Served before schema hs u v more others) :
    Served before schema (gs ++ hs) t v (clauses ++ more) (columns ++ others) := by
  refine ⟨?_, ?_, ?_, ?_, ?_⟩
  · rw [List.flatMap_append]
    exact h.carried.trans h'.carried
  · rw [h'.predicates, h.predicates, List.append_assoc]
  · rw [List.filter_append]
    refine List.rel_append ?_ h'.clauses
    -- clauses are read off the tree, which keeps the chains of their groups
    have hboth := (List.forall₂_and_left (gs.filter Group.hasFilter) clauses).2
      ⟨fun g hg => (List.mem_filter.1 hg).1, h.clauses⟩
    refine hboth.imp fun g clause => ?_
    intro hpair
    rcases hpair with ⟨hg, terms, rfl, hterms⟩
    refine ⟨terms, rfl, h.carried.becomes h'.carried (fun c hc => ?_) hterms⟩
    exact List.mem_flatMap.2 ⟨g, hg, (List.mem_filter.1 hc).1⟩
  · rw [List.flatMap_append, List.flatMap_append, h.carried.columns_eq h'.carried, h.columns,
      h'.columns]
  · intro k hk
    rw [List.flatMap_append, List.flatMap_append] at hk
    exact (List.mem_append.1 hk).elim (h.passes k) (h'.passes k)

-- More groups are carried out where the groups before them have led.
theorem groups_append (gs hs : List Group) :
    groups schema (gs ++ hs) = do
      let (clauses, columns) ← groups schema gs
      let (moreClauses, moreColumns) ← groups schema hs
      return (clauses + moreClauses, columns ++ moreColumns) := by
  induction gs with
  | nil => simp [groups]
  | cons g gs ih => simp [groups, ih, bind_assoc, Nat.add_assoc]

/-- Groups are carried out one after the other. -/
theorem served_groups (gs : List Group) (h : InStep before s.state)
    (husable : ∀ c ∈ gs.flatMap Group.conditions, c.Usable schema) :
    (groups schema gs).Ensures s
      (fun out t => ∃ clauses, Served before schema gs s.state t.state clauses out.2 ∧
        out.1 = clauses.length)
      (fun e _ => Clear before s.state.tree →
        FirstRefusal ((gs.flatMap Group.conditions).flatMap Condition.checks) e) := by
  induction gs generalizing s with
  | nil =>
    refine ⟨[], ⟨.refl h, (List.append_nil _).symm, .nil, rfl, ?_⟩, rfl⟩
    exact List.forall_mem_nil _
  | cons g gs ih =>
    rw [List.flatMap_cons] at husable
    rw [groups, Action.ensures_bind]
    refine (served_group g h fun c hc => husable c (List.mem_append_left _ hc)).imp ?_ ?_
    · intro out t hout
      rcases out with ⟨count, columns⟩
      rcases hout with ⟨clauses, hfirst, hcount⟩
      dsimp only
      rw [Action.ensures_bind]
      refine (ih hfirst.carried.inStep fun c hc => husable c (List.mem_append_right _ hc)).imp ?_ ?_
      · intro out u hout
        rcases out with ⟨counts, others⟩
        rcases hout with ⟨more, hrest, hcounts⟩
        refine ⟨clauses ++ more, hfirst.trans hrest, ?_⟩
        rw [List.length_append, ← hcount, ← hcounts]
      · intro e u hrefused hclear
        rw [List.flatMap_cons, List.flatMap_append]
        apply (hrefused (hclear.reaches hfirst.carried.tree)).append_left
        rw [← List.flatMap_singleton Group.conditions g]
        exact hfirst.passes
    · intro e t hrefused hclear
      rw [List.flatMap_cons, List.flatMap_append]
      exact (hrefused hclear).append_right

-- Columns are handed over together, and a result type only with them.
theorem ensures_project (columns : List Column) (resultType : Option String) :
    (project columns resultType).Ensures s
      (fun _ t => t.state = { s.state with plan :=
        if columns.isEmpty then s.state.plan
        else { s.state.plan with
          columns := columns
          resultType := resultType.or s.state.plan.resultType } })
      (fun _ _ => False) := by
  unfold project
  split
  · rfl
  · rw [Action.ensures_bind]
    apply ensures_issue rfl
    cases resultType with
    | none => rfl
    | some target => exact ensures_issue rfl rfl

-- A specification carries out its groups and then hands over their columns.
theorem served_spec (spec : Spec) (h : InStep before s.state)
    (husable : ∀ c ∈ spec.conditions, c.Usable spec.schema) :
    (Session.spec spec).Ensures s
      (fun out t => ∃ u clauses columns,
        Served before spec.schema spec.groups s.state u clauses columns ∧
        t.state = { u with plan :=
          if columns.isEmpty then u.plan
          else { u.plan with
            columns := columns
            resultType := spec.resultType.or u.plan.resultType } } ∧
        out = (clauses.length, columns.length))
      (fun e _ => Clear before s.state.tree →
        FirstRefusal (spec.conditions.flatMap Condition.checks) e) := by
  rw [Session.spec, Action.ensures_bind]
  refine (served_groups spec.groups h husable).imp ?_ fun _ _ => id
  intro out t hout
  rcases out with ⟨count, columns⟩
  rcases hout with ⟨clauses, hserved, rfl⟩
  dsimp only
  rw [Action.ensures_bind]
  refine (ensures_project columns spec.resultType).imp ?_ fun _ _ => False.elim
  intro _ u hproject
  exact ⟨t.state, clauses, columns, hserved, hproject, rfl⟩

end Session

end PathQuery
