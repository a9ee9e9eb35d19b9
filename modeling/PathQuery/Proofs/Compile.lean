import Mathlib
import PathQuery.Proofs.Alias
import PathQuery.Proofs.Session.Groups

/-!
# What compilations leave behind

A compilation that succeeds adds to a plan the joins, clauses and orders of the specification and
replaces page and columns. All of them are said by the tree of the chains that the conditions use.
-/

namespace PathQuery

open Condition (Group)

namespace Spec

/-- The chains that the conditions use, each where it is used first. -/
def chains (spec : Spec) : List (List String) :=
  (spec.conditions.flatMap Condition.chains).eraseDups

/-- The conversions of all operands, condition by condition. -/
def checks (spec : Spec) : List Check :=
  spec.conditions.flatMap Condition.checks

/-- The columns of all selections. -/
def columns (spec : Spec) (t : JoinTree) : List Column :=
  spec.conditions.flatMap (Condition.columns spec.schema t)

/-- The tree of a compilation before anything is joined. -/
def startTree (settings : Settings) (spec : Spec) (rootAlias : String) : JoinTree :=
  JoinTree.start spec.root rootAlias settings.stem spec.joinKind

/-- What a successful compilation adds to a plan. -/
structure Compiled (settings : Settings) (spec : Spec) (before : Plan) (c : Compilation)
    (clauses : List Predicate) (after : Plan) : Prop where
  tree : (startTree settings spec before.rootAlias).Reaches
    (spec.conditions.flatMap Condition.chains) c.tree
  sound : c.tree.Sound
  fresh : ∀ i < c.tree.chains.length, before.hasAlias (generatedAlias c.tree.stem (i + 1)) = false
  plan : after = { before with
    joins := before.joins ++ c.tree.joins
    predicates := before.predicates ++ clauses
    orders := before.orders ++ spec.conditions.flatMap (Condition.orders c.tree)
    columns := if (spec.columns c.tree).isEmpty then before.columns else spec.columns c.tree
    page := (spec.conditions.filter (·.kind.isPagination)).foldl turnPage before.page
    resultType :=
      if (spec.columns c.tree).isEmpty then before.resultType
      else spec.resultType.or before.resultType }
  groups : List.Forall₂ (Group.Clause c.tree) (spec.groups.filter Group.hasFilter) clauses
  count : c.clauses = clauses.length
  width : c.columns = (spec.columns c.tree).length
  passes : ∀ k ∈ spec.checks, k.passes = true

variable {settings : Settings} {spec : Spec}

-- A specification uses the chains of its conditions.
theorem mem_chains_of_mem {c : Condition} {chain : List String} (hc : c ∈ spec.conditions)
    (h : chain ∈ c.chains) : chain ∈ spec.chains := by
  rw [chains, List.mem_eraseDups]
  exact List.mem_flatMap.2 ⟨c, hc, h⟩

-- A compilation carries out the specification and reports how it went.
theorem ensures_compile_iff {s : Logged Plan} {ok : Compilation → Logged Plan → Prop}
    {fail : Error → Logged Plan → Prop} :
    (spec.compile settings).Ensures s ok fail ↔
      (Session.spec spec).Ensures ⟨⟨startTree settings spec s.state.rootAlias, s.state⟩, s.events⟩
        (fun out t => ok ⟨t.state.tree, out.1, out.2⟩ ⟨t.state.plan, t.events ++
          [.compiled ⟨spec.root, spec.groups.length, out.1, t.state.tree.joinCount, out.2,
            none⟩]⟩)
        (fun e t => fail e ⟨t.state.plan, t.events ++
          [.compiled ⟨spec.root, spec.groups.length, 0, t.state.tree.joinCount, 0,
            some e.message⟩]⟩) := by
  unfold Action.Ensures compile startTree
  dsimp only
  cases Session.spec spec _ <;> rfl

/-- A specification of usable conditions compiles, or fails where an alias or its first bad operand
is in the way. -/
theorem ensures_compile (husable : ∀ c ∈ spec.conditions, c.Usable spec.schema)
    (s : Logged Plan) :
    (spec.compile settings).Ensures s
      (fun c t => ∃ clauses, Compiled settings spec s.state c clauses t.state)
      (fun e _ => Session.Clear s.state (startTree settings spec s.state.rootAlias) →
        FirstRefusal spec.checks e) := by
  rw [ensures_compile_iff]
  have hstart :=
    Session.inStep_start spec.root s.state.rootAlias settings.stem spec.joinKind s.state
  refine (Session.served_spec spec hstart husable).imp ?_ fun _ _ => id
  intro out t hdone
  rcases hdone with ⟨u, clauses, columns, hserved, hstate, rfl⟩
  -- handing over the columns at the end leaves the tree as it is
  have htree : t.state.tree = u.tree := by rw [hstate]
  have hcolumns : columns = spec.columns u.tree := hserved.columns
  refine ⟨clauses, ?_, ?_, ?_, ?_, ?_, rfl, ?_, hserved.passes⟩
  · rw [htree]
    exact hserved.carried.tree
  · rw [htree]
    exact hserved.carried.inStep.sound
  · rw [htree]
    exact hserved.carried.inStep.fresh
  · dsimp only
    rw [htree, hstate, ← hcolumns, hserved.carried.plan, hserved.predicates,
      hserved.carried.inStep.joins]
    cases columns.isEmpty <;> rfl
  · rw [htree]
    exact hserved.clauses
  · rw [htree, ← hcolumns]

namespace Compiled

variable {before after : Plan} {c : Compilation} {clauses : List Predicate}

theorem chains (h : Compiled settings spec before c clauses after) :
    c.tree.chains = spec.chains :=
  h.tree.chains

theorem aliasAt (h : Compiled settings spec before c clauses after) (chain : List String) :
    c.tree.aliasAt chain = chainAlias before.rootAlias settings.stem spec.chains chain := by
  rw [JoinTree.aliasAt, h.chains, h.tree.rootAlias, h.tree.stem]
  rfl

theorem joins (h : Compiled settings spec before c clauses after) :
    c.tree.joins = chainJoins before.rootAlias settings.stem spec.joinKind spec.chains := by
  rw [h.sound.joins_eq, h.chains, h.tree.rootAlias, h.tree.stem, h.tree.kind]
  rfl

theorem closedChains (h : Compiled settings spec before c clauses after) :
    ClosedChains spec.chains := by
  rw [← h.chains]
  exact h.sound.closed

-- No alias of a join was known before.
theorem unknown (h : Compiled settings spec before c clauses after) {i : Nat}
    (hi : i < spec.chains.length) :
    before.hasAlias (generatedAlias settings.stem (i + 1)) = false := by
  have hfresh := h.fresh i (by rw [h.chains]; exact hi)
  rw [h.tree.stem] at hfresh
  exact hfresh

variable {rootAlias : String}

-- The joins of a plan that was fresh are those of the chains.
theorem joins_of_start
    (h : Compiled settings spec (.start spec.root rootAlias) c clauses after) :
    after.joins = chainJoins rootAlias settings.stem spec.joinKind spec.chains := by
  rw [h.plan]
  exact h.joins

-- The orders of a plan that was fresh are those of the conditions.
theorem orders_of_start
    (h : Compiled settings spec (.start spec.root rootAlias) c clauses after) :
    after.orders = spec.conditions.flatMap (Condition.orders c.tree) := by
  rw [h.plan]
  rfl

-- No join of a plan that was fresh has the root alias.
theorem generatedAlias_ne_of_start
    (h : Compiled settings spec (.start spec.root rootAlias) c clauses after) :
    ∀ i < spec.chains.length, generatedAlias settings.stem (i + 1) ≠ rootAlias := by
  intro i hi heq
  have hunknown := h.unknown hi
  rw [Bool.eq_false_iff, Ne, Plan.hasAlias_eq_true] at hunknown
  exact hunknown (.inl heq)

end Compiled

/-! ## Plans -/

-- A plan is compiled from a fresh one.
theorem toPlan_outcomes (settings : Settings) (h : spec.Reachable) :
    (∀ plan, spec.toPlan settings = .ok plan →
      ∃ c clauses, Compiled settings spec (.start spec.root settings.rootAlias) c clauses plan) ∧
    ∀ e, spec.toPlan settings = .error e →
      Session.Clear (.start spec.root settings.rootAlias)
        (startTree settings spec settings.rootAlias) →
      FirstRefusal spec.checks e := by
  apply Action.Ensures.result
  rw [Spec.plan, Action.ensures_bind, Action.ensures_within]
  refine (ensures_compile h.usable ⟨.start spec.root settings.rootAlias, []⟩).imp ?_
    fun _ _ => id
  intro c t hcompiled
  dsimp only
  split
  · exact ⟨c, hcompiled⟩
  · exact ⟨c, hcompiled⟩

-- Under valid settings a fresh plan has no alias in the way.
theorem clear_of_validate (h : settings.validate = .ok ()) :
    Session.Clear (.start spec.root settings.rootAlias)
      (startTree settings spec settings.rootAlias) := by
  refine ⟨Plan.hasAlias_eq_true.2 (.inl rfl), fun n => ?_⟩
  rw [Bool.eq_false_iff, Ne, Plan.hasAlias_eq_true]
  intro hknown
  rcases hknown with hroot | ⟨j, hj, -⟩
  · exact Settings.generatedAlias_ne_rootAlias h n hroot
  · cases hj

-- Under valid settings nothing but an operand can be in the way of a plan.
theorem exists_toPlan_iff (hvalid : settings.validate = .ok ()) (h : spec.Reachable) :
    (∃ plan, spec.toPlan settings = .ok plan) ↔ ∀ k ∈ spec.checks, k.passes = true := by
  obtain ⟨hok, herror⟩ := toPlan_outcomes settings h
  constructor
  · rintro ⟨plan, run⟩
    obtain ⟨c, clauses, hcompiled⟩ := hok plan run
    exact hcompiled.passes
  · intro hall
    cases run : spec.toPlan settings with
    | ok plan => exact ⟨plan, rfl⟩
    | error e =>
      obtain ⟨k, hk, -⟩ := herror e run (clear_of_validate hvalid)
      rw [firstRefused?_eq_none.2 hall] at hk
      cases hk

/-! ## A specification of employees -/

/-- Employees with their managers. -/
def staffSchema : Schema :=
  ⟨[⟨"Employee", [⟨"name", .scalar .string⟩, ⟨"age", .nullable .int32⟩,
    ⟨"manager", .reference "Employee"⟩]⟩]⟩

/-- Two alternatives, an order, the columns of a relationship and a page. -/
def staffCalls : List Call :=
  [⟨.notEqual (.chain ["manager", "age"]) (.int64 50), false⟩,
   ⟨.isNull (.chain ["manager", "manager", "name"]), true⟩,
   ⟨.orderByDescending (.chain ["manager", "name"]), false⟩,
   ⟨.select (.chain ["manager"]), false⟩,
   ⟨.take 10, false⟩]

def staff : Spec :=
  (chain staffCalls ⟨⟨staffSchema, "Employee", .inner, [], none⟩, []⟩).2.state

def staffPlan : Plan where
  entity := "Employee"
  rootAlias := "this"
  joins := [⟨"this", "manager", "alias_1", .inner⟩, ⟨"alias_1", "manager", "alias_2", .inner⟩]
  predicates := [.or [.not (.equal "alias_1.age" (.int32 50)), .isNull "alias_2.name"]]
  orders := [⟨"alias_1.name", .descending⟩]
  columns := [⟨"alias_1.name", "name"⟩, ⟨"alias_1.age", "age"⟩]
  page := { limit := some 10, offset := none }
  resultType := none

theorem reachable_staff : staff.Reachable :=
  Reachable.chain (.start (show start staffSchema "Employee" = .ok _ by rfl)) staffCalls

theorem toPlan_staff : staff.toPlan .standard = .ok staffPlan := by
  cbv

end Spec

end PathQuery
