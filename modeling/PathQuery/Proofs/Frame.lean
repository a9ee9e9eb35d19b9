import PathQuery.Proofs.Clauses
import PathQuery.Proofs.Prolonged
import PathQuery.Proofs.Session.Instructions

/-!
# Compilations into plans in use

A compilation only adds to what its plan holds, wherever it stops. One that fails has added the
clauses of the groups before the failing one and has not come to the columns; one that succeeds
replaces the columns if it has some.
-/

namespace PathQuery

open Condition (Group)

/-! ## What instructions leave alone -/

namespace Plan

/-- The plan has been added to only: it is about the same entity and begins with the same joins,
clauses and orders. Its limit or its offset is another one only if a condition is there for it. -/
structure KeptIn (cs : List Condition) (before p : Plan) : Prop where
  entity : p.entity = before.entity
  rootAlias : p.rootAlias = before.rootAlias
  joins : before.joins <+: p.joins
  predicates : before.predicates <+: p.predicates
  orders : before.orders <+: p.orders
  limit : p.page.limit ≠ before.page.limit → ∃ c ∈ cs, c.kind = .take
  offset : p.page.offset ≠ before.page.offset → ∃ c ∈ cs, c.kind = .skip

variable {before p q : Plan} {i : Instruction} {cs : List Condition} {gs : List Group}

theorem KeptIn.refl (cs : List Condition) (p : Plan) : p.KeptIn cs p :=
  ⟨rfl, rfl, List.prefix_refl _, List.prefix_refl _, List.prefix_refl _, fun h => absurd rfl h,
    fun h => absurd rfl h⟩

theorem KeptIn.taken {spec : Spec} (h : before.KeptIn spec.conditions p) (hi : i.ForSpec spec)
    (run : p.apply i = .ok q) : before.KeptIn spec.conditions q := by
  cases hi with
  | group hi =>
    cases hi with
    | condition hc hi =>
      cases hi with
      | join j =>
        rw [(join_eq_ok_iff.1 run).2.2]
        exact { h with joins := h.joins.trans (List.prefix_append _ _) }
      | order o _ =>
        cases run
        exact { h with orders := h.orders.trans (List.prefix_append _ _) }
      | offset n hkind =>
        cases run
        exact { h with offset := fun _ => ⟨_, hc, hkind⟩ }
      | limit n hkind =>
        cases run
        exact { h with limit := fun _ => ⟨_, hc, hkind⟩ }
    | restrict clause =>
      cases run
      exact { h with predicates := h.predicates.trans (List.prefix_append _ _) }
  | select _ | bindResult _ =>
    cases run
    exact { h with }

theorem Receives.keptIn {spec : Spec} (h : p.Receives (Instruction.ForSpec spec) q) :
    p.KeptIn spec.conditions q :=
  h.invariant (p.KeptIn spec.conditions) (.refl _ p) .taken

-- Columns and the result type are handed over behind all groups.
theorem Receives.columns (h : p.Receives (Instruction.ForGroups gs) q) :
    q.columns = p.columns ∧ q.resultType = p.resultType := by
  refine h.invariant (fun r => r.columns = p.columns ∧ r.resultType = p.resultType)
    ⟨rfl, rfl⟩ fun hr hi run => ?_
  cases hi with
  | condition _ hi =>
    cases hi with
    | join j =>
      rw [(join_eq_ok_iff.1 run).2.2]
      exact hr
    | order _ _ | offset _ _ | limit _ _ =>
      cases run
      exact hr
  | restrict _ =>
    cases run
    exact hr

-- A clause is added behind all conditions of its group.
theorem Receives.predicates (h : p.Receives (fun i => ∃ c ∈ cs, i.For c.kind) q) :
    q.predicates = p.predicates := by
  refine h.invariant (·.predicates = p.predicates) rfl fun hr hi run => ?_
  obtain ⟨c, -, hi⟩ := hi
  cases hi with
  | join j =>
    rw [(join_eq_ok_iff.1 run).2.2]
    exact hr
  | order _ _ | offset _ _ | limit _ _ =>
    cases run
    exact hr

end Plan

/-! ## Where groups fail -/

namespace Session

variable {schema : Schema} {gs : List Group} {g : Group} {s t : Logged Session} {e : Error}

-- The plan takes every clause, so that a group can only fail in its conditions.
theorem group_eq_error_iff :
    group schema g s = .error e t ↔ conditions schema g.conditions s = .error e t := by
  rw [group, Action.bind_eq_error_iff]
  refine ⟨fun h => h.resolve_right ?_, .inl⟩
  rintro ⟨c, u, -, hrest⟩
  split at hrest
  · cases hrest
  · cases hrest

/-- Groups fail in one of them, when those before it have been carried out. -/
theorem groups_eq_error_iff :
    groups schema gs s = .error e t ↔
      ∃ front failing back out u, gs = front ++ failing :: back ∧
        groups schema front s = .ok out u ∧ group schema failing u = .error e t := by
  constructor
  · intro h
    induction gs generalizing s with
    | nil => cases h
    | cons g gs ih =>
      rw [groups, Action.bind_eq_error_iff] at h
      rcases h with hfirst | ⟨first, u, hfirst, hrest⟩
      · exact ⟨[], g, gs, (0, []), s, rfl, rfl, hfirst⟩
      rcases Action.bind_eq_error_iff.1 hrest with hrest | ⟨_, _, -, hdone⟩
      · obtain ⟨front, failing, back, out, v, rfl, hfront, hfailing⟩ := ih hrest
        have hmore : groups schema (g :: front) s =
            .ok (first.1 + out.1, first.2 ++ out.2) v := by
          rw [groups, Action.bind_eq_ok_iff]
          exact ⟨first, u, hfirst, Action.bind_eq_ok_iff.2 ⟨out, v, hfront, rfl⟩⟩
        exact ⟨g :: front, failing, back, _, v, rfl, hmore, hfailing⟩
      · cases hdone
  · rintro ⟨front, failing, back, out, u, rfl, hfront, hfailing⟩
    rw [groups_append, Action.bind_eq_error_iff]
    refine .inr ⟨out, u, hfront, Action.bind_eq_error_iff.2 (.inl ?_)⟩
    rw [groups, Action.bind_eq_error_iff]
    exact .inl hfailing

end Session

/-! ## Compilations -/

namespace Spec

variable {settings : Settings} {spec : Spec} {s : Logged Plan}

-- Wherever a compilation ends, the plan has been added to only.
theorem keptIn_compile (settings : Settings) (spec : Spec) (s : Logged Plan) :
    (spec.compile settings).Ensures s (fun _ t => s.state.KeptIn spec.conditions t.state)
      (fun _ t => s.state.KeptIn spec.conditions t.state) := by
  rw [ensures_compile_iff]
  exact (Session.tells_spec spec _).imp (fun _ _ ht => ht.keptIn) fun _ _ ht => ht.keptIn

/-- The specification up to some of its groups. -/
def upTo (spec : Spec) (front : List Group) : Spec :=
  { spec with groups := front }

/-- What a compilation that fails has come to: the groups before the failing one have been carried
out with all their clauses, and the columns have not been handed over. -/
structure Stopped (settings : Settings) (spec : Spec) (s : Logged Plan) (e : Error)
    (after : Plan) (front : List Group) (failing : Group) (back : List Group) : Prop where
  groups : spec.groups = front ++ failing :: back
  carriedOut : ∃ c t, (spec.upTo front).compile settings s = .ok c t ∧
    after.predicates = t.state.predicates
  fails : ∃ t, (spec.upTo (front ++ [failing])).compile settings s = .error e t
  columns : after.columns = s.state.columns
  resultType : after.resultType = s.state.resultType

theorem exists_stopped {e : Error} {t : Logged Plan} (run : spec.compile settings s = .error e t) :
    ∃ front failing back, Stopped settings spec s e t.state front failing back := by
  have hrun : (spec.compile settings).Ensures s (fun _ _ => False) fun f u => e = f ∧ u = t :=
    Action.exists_error_iff.2 ⟨e, t, run, rfl, rfl⟩
  rw [ensures_compile_groups] at hrun
  obtain ⟨_, u, hgroups, rfl, rfl⟩ := Action.exists_error_iff.1 hrun
  obtain ⟨front, failing, back, out, v, hsplit, hfront, hfailing⟩ :=
    Session.groups_eq_error_iff.1 hgroups
  refine ⟨front, failing, back, hsplit, ?_, ?_, ?_, ?_⟩
  · -- the conditions of the failing group add no clause
    have hkept : u.state.plan.predicates = v.state.plan.predicates :=
      ((Session.tells_conditions _ _ v).of_error (Session.group_eq_error_iff.1 hfailing)).predicates
    refine Action.exists_ok_iff.1 (ensures_compile_groups.2 ?_)
    exact Action.exists_ok_iff.2 ⟨out, v, hfront, hkept⟩
  · exact exists_compile_error_iff.2
      ⟨u, Session.groups_eq_error_iff.2 ⟨front, failing, [], out, v, rfl, hfront, hfailing⟩⟩
  · exact ((Session.tells_groups _ _ _).of_error hgroups).columns.1
  · exact ((Session.tells_groups _ _ _).of_error hgroups).columns.2

/-- A compilation into a plan, whatever that plan holds, adds to it only, wherever it stops. If it
succeeds, the columns that the specification selects take the place of those before, and its result
type comes with them; without such columns both stay as they are. If it fails, it does so in one of
the groups: the clauses of the groups before that one have been added and no others, and columns and
result type are those before. -/
theorem compile_frame (h : spec.Reachable) (s : Logged Plan) :
    (∀ c t, spec.compile settings s = .ok c t →
      s.state.KeptIn spec.conditions t.state ∧
      ∃ columns,
        spec.Selects (fun chain a =>
          a = chainAlias s.state.rootAlias settings.stem spec.chains chain) columns ∧
        c.columns = columns.length ∧
        t.state.columns = (if columns = [] then s.state.columns else columns) ∧
        t.state.resultType =
          if columns = [] then s.state.resultType else spec.resultType.or s.state.resultType) ∧
    ∀ e t, spec.compile settings s = .error e t →
      s.state.KeptIn spec.conditions t.state ∧
      ∃ front failing back clauses,
        Stopped settings spec s e t.state front failing back ∧
        (spec.upTo front).Clauses
          (chainAlias s.state.rootAlias settings.stem (spec.upTo front).chains) clauses ∧
        t.state.predicates = s.state.predicates ++ clauses := by
  have hkept := keptIn_compile settings spec s
  refine ⟨fun c t run => ?_, fun e t run => ?_⟩
  · obtain ⟨clauses, hcompiled⟩ := (ensures_compile h.usable s).of_ok run
    refine ⟨hkept.of_ok run, spec.columns c.tree,
      selects_columns h.usable fun chain _ => hcompiled.aliasAt chain, hcompiled.width, ?_, ?_⟩
    · rw [hcompiled.plan]
      simp only [List.isEmpty_iff]
    · rw [hcompiled.plan]
      simp only [List.isEmpty_iff]
  · obtain ⟨front, failing, back, hstopped⟩ := exists_stopped run
    obtain ⟨c, u, hfront, hpredicates⟩ := hstopped.carriedOut
    have husable : ∀ d ∈ (spec.upTo front).conditions, d.Usable spec.schema := by
      intro d hd
      apply h.usable d
      rw [conditions, hstopped.groups, List.flatMap_append]
      exact List.mem_append_left _ hd
    obtain ⟨clauses, hcompiled⟩ := (ensures_compile husable s).of_ok hfront
    refine ⟨hkept.of_error run, front, failing, back, clauses, hstopped, hcompiled.clauses_of, ?_⟩
    rw [hpredicates, hcompiled.plan]

/-- A plan in use, with a join under an alias that compilations generate too. -/
def usedPlan : Plan where
  entity := "Employee"
  rootAlias := "this"
  joins := [⟨"this", "office", "alias_3", .leftOuter⟩]
  predicates := [.isNull "alias_3.city"]
  orders := [⟨"this.name", .ascending⟩]
  columns := [⟨"this.name", "name"⟩]
  page := { limit := some 5, offset := none }
  resultType := some "Name"

/-- The plan when a compilation has stopped at its third join. -/
def usedPlanStopped : Plan where
  entity := "Employee"
  rootAlias := "this"
  joins := [⟨"this", "office", "alias_3", .leftOuter⟩, ⟨"this", "manager", "alias_1", .inner⟩,
    ⟨"alias_1", "manager", "alias_2", .inner⟩]
  predicates := [.isNull "alias_3.city",
    .or [.not (.equal "alias_1.age" (.int32 50)), .isNull "alias_2.name"]]
  orders := [⟨"this.name", .ascending⟩, ⟨"alias_1.name", .descending⟩]
  columns := [⟨"this.name", "name"⟩]
  page := { limit := some 10, offset := none }
  resultType := some "Name"

-- One clause, one order and a limit have come in before the third join is refused.
theorem compile_frame_prolongedStaff :
    prolongedStaff.Reachable ∧
      ∃ e t, prolongedStaff.compile .standard ⟨usedPlan, []⟩ = .error e t ∧
        t.state = usedPlanStopped ∧ usedPlan.KeptIn prolongedStaff.conditions usedPlanStopped ∧
        ∃ front failing back, Stopped .standard prolongedStaff ⟨usedPlan, []⟩ e usedPlanStopped
          front failing back := by
  have hreachable : prolongedStaff.Reachable := Reachable.chain (s := ⟨staff, []⟩) reachable_staff _
  obtain ⟨e, t, run, hstate⟩ : ∃ e t,
      prolongedStaff.compile .standard ⟨usedPlan, []⟩ = .error e t ∧ t.state = usedPlanStopped := by
    rw [← Action.exists_error_iff, ensures_compile_iff]
    dsimp only -- what is reported plays no part
    cbv
  obtain ⟨hkept, front, failing, back, clauses, hstopped, -, -⟩ :=
    (compile_frame hreachable ⟨usedPlan, []⟩).2 e t run
  rw [hstate] at hkept hstopped
  exact ⟨hreachable, e, t, run, hstate, hkept, front, failing, back, hstopped⟩

end Spec

end PathQuery
