import PathQuery.Proofs.Views

/-!
# Specifications that are prolonged

Plain calls open new groups and touch none of the old ones, and groups are carried out in their
order. So the plan of a specification stands at the beginning of the plans of all that it is
prolonged to, with the same aliases.
-/

namespace PathQuery

open Condition (Kind Group)

/-! ## Plain calls -/

namespace Spec

/-- Plain calls lead from one specification to another, whichever of them fail. A result type may be
asked for in between. -/
inductive Prolongs (spec : Spec) : Spec → Prop where
  | refl : Prolongs spec spec
  | withResultType {other : Spec} (h : Prolongs spec other) (target : String) :
    Prolongs spec (other.withResultType target)
  | accepted {s t : Logged Spec} {request : Request} {index : Nat} (h : Prolongs spec s.state)
    (run : perform .newGroup request s = .ok index t) : Prolongs spec t.state
  | refused {s t : Logged Spec} {request : Request} {e : Error} (h : Prolongs spec s.state)
    (run : perform .newGroup request s = .error e t) : Prolongs spec t.state

variable {spec other : Spec} {settings : Settings}

-- Calls that continue no group go into new ones, wherever the calls before them went.
theorem Call.placement_of_plain {c : Call} (h : c.continues = false) (previous : Option Nat) :
    Call.placement c previous = .newGroup := by
  cases previous with
  | none => rfl
  | some i =>
    rw [Call.placement, h]
    rfl

-- Chains of calls that continue no group prolong.
theorem Prolongs.chain {s : Logged Spec} (h : Prolongs spec s.state) (cs : List Call)
    (hcs : ∀ c ∈ cs, c.continues = false) : Prolongs spec (Spec.chain cs s).2.state := by
  suffices hfrom : ∀ previous, Prolongs spec (chainFrom previous cs s).2.state from hfrom none
  induction cs generalizing s with
  | nil => exact fun _ => h
  | cons c cs ih =>
    obtain ⟨hc, hcs⟩ := List.forall_mem_cons.1 hcs
    intro previous
    rw [chainFrom, Call.placement_of_plain hc]
    split
    next index t run => exact ih (h.accepted run) hcs (some index)
    next e t run => exact h.refused run

theorem Prolongs.reachable (h : Prolongs spec other) (hspec : spec.Reachable) :
    other.Reachable := by
  induction h with
  | refl => exact hspec
  | withResultType _ target ih => exact ih.withResultType target
  | accepted _ run ih => exact ih.accepted run
  | refused _ run ih => exact ih.refused run

/-- What is prolonged has new groups behind the old ones, each of them with one condition. -/
theorem Prolongs.exists_added (h : Prolongs spec other) :
    ∃ (added : List Condition) (resultType : Option String), other = { spec with
      groups := spec.groups ++ added.map fun c => ⟨[c]⟩
      resultType := resultType } := by
  induction h with
  | refl => exact ⟨[], spec.resultType, by simp⟩
  | withResultType _ target ih =>
    obtain ⟨added, -, rfl⟩ := ih
    exact ⟨added, some target, rfl⟩
  | accepted _ run ih =>
    obtain ⟨added, resultType, hs⟩ := ih
    obtain ⟨more, -, ht, -⟩ := (ensures_perform_arrange _ _ _).of_ok run
    exact ⟨added ++ more, resultType, by simp [ht, arrange, hs]⟩
  | refused _ run ih =>
    rw [((ensures_perform_arrange _ _ _).of_error run).1]
    exact ih

end Spec

/-! ## Plans that begin alike -/

namespace Plan

/-- The plan goes on where another one has ended: whatever the other one has stands at the beginning
of what this one has. -/
structure Continues (p before : Plan) : Prop where
  entity : p.entity = before.entity
  rootAlias : p.rootAlias = before.rootAlias
  joins : before.joins <+: p.joins
  predicates : before.predicates <+: p.predicates
  orders : before.orders <+: p.orders
  columns : before.columns <+: p.columns

/-- The plan when columns have been handed over, and the result type with them. -/
def withColumns (p : Plan) (columns : List Column) (resultType : Option String) : Plan :=
  { p with
    columns := if columns.isEmpty then p.columns else columns
    resultType := if columns.isEmpty then p.resultType else resultType.or p.resultType }

variable {p before : Plan} {columns more : List Column}

theorem columns_withColumns (h : p.columns = []) (resultType : Option String) :
    (p.withColumns columns resultType).columns = columns := by
  cases columns with
  | nil => exact h
  | cons c cs => rfl

-- Columns may be handed over to both plans, as long as those of the other one come first.
theorem Continues.withColumns (h : p.Continues before) (hp : p.columns = [])
    (hbefore : before.columns = []) (resultType other : Option String) :
    (p.withColumns (columns ++ more) resultType).Continues (before.withColumns columns other) := by
  refine ⟨h.entity, h.rootAlias, h.joins, h.predicates, h.orders, ?_⟩
  rw [columns_withColumns hp, columns_withColumns hbefore]
  exact List.prefix_append _ _

end Plan

/-! ## Carrying out more groups -/

namespace Session

variable {before : Plan} {schema : Schema} {gs : List Group} {t u : Session}
  {clauses : List Predicate} {columns : List Column}

-- Columns and the result type stay as they are until the end.
theorem Carried.columns_plan {cs : List Condition} (h : Carried before cs t u) :
    u.plan.columns = t.plan.columns := by
  rw [h.plan]

theorem Carried.page_plan {cs : List Condition} (h : Carried before cs t u) :
    u.plan.page = Spec.turnPages t.plan.page cs := by
  rw [h.plan]
  rfl

/-- Carrying out groups goes on with the plan as it was. -/
theorem Served.continues (ht : InStep before t)
    (h : Served before schema gs t u clauses columns) : u.plan.Continues t.plan := by
  have hplan := h.carried.plan
  refine ⟨by rw [hplan], by rw [hplan], ?_, ?_, ?_, by rw [hplan]⟩
  · rw [ht.joins, h.carried.inStep.joins, List.prefix_append_right_inj]
    exact h.carried.tree.joins_isPrefix ht.sound h.carried.inStep.sound
  · rw [h.predicates]
    exact List.prefix_append _ _
  · rw [hplan]
    exact List.prefix_append _ _

variable {s : Logged Session}

-- An instruction that the plan takes without a report changes nothing else.
theorem issue_eq_ok {i : Instruction} {p : Plan} (happly : s.state.plan.apply i = .ok p)
    (hevents : i.events = []) : issue i s = .ok () ⟨⟨s.state.tree, p⟩, s.events⟩ := by
  unfold issue Action.focus Plan.perform
  dsimp only
  rw [happly, hevents, List.append_nil]

theorem project_eq (columns : List Column) (resultType : Option String) :
    project columns resultType s =
      .ok () ⟨⟨s.state.tree, s.state.plan.withColumns columns resultType⟩, s.events⟩ := by
  cases columns with
  | nil => rfl
  | cons c cs =>
    refine Action.bind_eq_ok_iff.2 ⟨(), _, issue_eq_ok rfl rfl, ?_⟩
    cases resultType with
    | none => rfl
    | some target => exact issue_eq_ok rfl rfl

end Session

/-! ## Compilations by groups -/

namespace Spec

variable {spec other : Spec} {settings : Settings} {plan : Plan} {s : Logged Plan}

/-- The session that carries out a specification for a plan in use. -/
def sessionIn (settings : Settings) (spec : Spec) (s : Logged Plan) : Logged Session :=
  ⟨⟨startTree settings spec s.state.rootAlias, s.state⟩, s.events⟩

/-- A compilation carries out the groups, and nothing fails behind them. -/
theorem ensures_compile_groups {ok : Compilation → Logged Plan → Prop}
    {fail : Error → Logged Plan → Prop} :
    (spec.compile settings).Ensures s ok fail ↔
      (Session.groups spec.schema spec.groups).Ensures (sessionIn settings spec s)
        (fun out t => ok ⟨t.state.tree, out.1, out.2.length⟩
          ⟨t.state.plan.withColumns out.2 spec.resultType, t.events ++
            [.compiled ⟨spec.root, spec.groups.length, out.1, t.state.tree.joinCount,
              out.2.length, none⟩]⟩)
        (fun e t => fail e ⟨t.state.plan, t.events ++
          [.compiled ⟨spec.root, spec.groups.length, 0, t.state.tree.joinCount, 0,
            some e.message⟩]⟩) := by
  rw [ensures_compile_iff, Session.spec, Action.ensures_bind]
  refine Action.ensures_congr (fun out t => ?_) fun _ _ => Iff.rfl
  dsimp only
  rw [Action.ensures_bind, Action.Ensures, Session.project_eq]
  rfl

-- A compilation fails where its groups do.
theorem exists_compile_error_iff {e : Error} :
    (∃ t, spec.compile settings s = .error e t) ↔
      ∃ u, Session.groups spec.schema spec.groups (sessionIn settings spec s) = .error e u := by
  rw [Action.exists_eq_error_iff, Action.exists_eq_error_iff]
  exact ensures_compile_groups

/-- The session that carries out a specification for a plan of its own. -/
def startSession (settings : Settings) (spec : Spec) : Logged Session :=
  ⟨⟨startTree settings spec settings.rootAlias, .start spec.root settings.rootAlias⟩, []⟩

theorem inStep_startSession (settings : Settings) (spec : Spec) :
    Session.InStep (.start spec.root settings.rootAlias) (startSession settings spec).state :=
  Session.inStep_start _ _ _ _ _

/-- A plan is what its groups leave, with their columns handed over. -/
theorem toPlan_eq_ok_iff :
    spec.toPlan settings = .ok plan ↔
      ∃ out t, Session.groups spec.schema spec.groups (startSession settings spec) = .ok out t ∧
        plan = t.state.plan.withColumns out.2 spec.resultType := by
  rw [toPlan, Action.result_eq_ok_iff, Spec.plan, Action.ensures_bind, Action.ensures_within,
    ensures_compile_groups, ← Action.exists_ok_iff]
  refine Action.ensures_congr (fun out t => ?_) fun _ _ => Iff.rfl
  -- nothing but a report is left
  rw [eq_comm (a := plan)]
  cases settings.logSql <;> exact Iff.rfl

/-- A specification comes to an error where its groups do. -/
theorem toPlan_eq_error_iff {e : Error} :
    spec.toPlan settings = .error e ↔
      ∃ t, Session.groups spec.schema spec.groups (startSession settings spec) = .error e t := by
  rw [toPlan, Action.result_eq_error_iff, Spec.plan, Action.ensures_bind, Action.ensures_within,
    ensures_compile_groups, Action.exists_eq_error_iff]
  refine Action.ensures_congr (fun out t => ?_) fun _ _ => Iff.rfl
  cases settings.logSql <;> exact Iff.rfl

-- Groups of one condition each have the conditions that they are made of.
theorem flatMap_conditions_singletons (added : List Condition) :
    (added.map fun c => (⟨[c]⟩ : Group)).flatMap Group.conditions = added := by
  rw [List.flatMap_map, List.flatMap_singleton']

/-- The plan of a specification stands at the beginning of the plan of whatever plain calls prolong
it to, and is there as soon as the other plan is. Limit and offset stay what they are unless a later
condition replaces them. -/
theorem toPlan_prolonged {after : Plan} (h : spec.Reachable) (hmore : spec.Prolongs other)
    (run : other.toPlan settings = .ok after) :
    ∃ (before : Plan) (added : List Condition), spec.toPlan settings = .ok before ∧
      other.groups = spec.groups ++ added.map (fun c => ⟨[c]⟩) ∧
      after.Continues before ∧
      ((∀ c ∈ added, c.kind ≠ .take) → after.page.limit = before.page.limit) ∧
      ((∀ c ∈ added, c.kind ≠ .skip) → after.page.offset = before.page.offset) := by
  have husable := (hmore.reachable h).usable
  obtain ⟨added, resultType, rfl⟩ := hmore.exists_added
  simp only [conditions, List.flatMap_append, List.forall_mem_append] at husable
  obtain ⟨out, u, hrun, rfl⟩ := toPlan_eq_ok_iff.1 run
  -- the groups of the specification come first, in the same session
  rw [Session.groups_append, Action.bind_eq_ok_iff] at hrun
  obtain ⟨first, t, hfirst, hrun⟩ := hrun
  change Session.groups spec.schema spec.groups (startSession settings spec) = .ok first t at hfirst
  obtain ⟨rest, v, hrest, hrun⟩ := Action.bind_eq_ok_iff.1 hrun
  cases hrun
  obtain ⟨clauses, hserved, -⟩ :=
    (Session.served_groups spec.groups (inStep_startSession settings spec) husable.1).of_ok hfirst
  obtain ⟨more, hgoes, -⟩ :=
    (Session.served_groups _ hserved.carried.inStep husable.2).of_ok hrest
  have hcolumns : t.state.plan.columns = [] := hserved.carried.columns_plan
  have hpage : u.state.plan.page = turnPages t.state.plan.page added := by
    rw [hgoes.carried.page_plan, flatMap_conditions_singletons]
  refine ⟨_, added, toPlan_eq_ok_iff.2 ⟨first, t, hfirst, rfl⟩, rfl,
    (hgoes.continues hserved.carried.inStep).withColumns
      (hgoes.carried.columns_plan.trans hcolumns) hcolumns _ _, fun hnone => ?_, fun hnone => ?_⟩
  · exact (congrArg Page.limit hpage).trans (numberOf_turnPages_of_ne
      (show Kind.take.isPagination = true from rfl) hnone t.state.plan.page)
  · exact (congrArg Page.offset hpage).trans (numberOf_turnPages_of_ne
      (show Kind.skip.isPagination = true from rfl) hnone t.state.plan.page)

/-- The staff with three more calls: another join, another column and an offset. -/
def prolongedStaff : Spec :=
  (chain
    [⟨.fetch (.chain ["manager", "manager", "manager"]), false⟩,
     ⟨.select (.chain ["name"]), false⟩,
     ⟨.skip 7, false⟩]
    ⟨staff, []⟩).2.state

def prolongedStaffPlan : Plan where
  entity := "Employee"
  rootAlias := "this"
  joins := [⟨"this", "manager", "alias_1", .inner⟩, ⟨"alias_1", "manager", "alias_2", .inner⟩,
    ⟨"alias_2", "manager", "alias_3", .inner⟩]
  predicates := [.or [.not (.equal "alias_1.age" (.int32 50)), .isNull "alias_2.name"]]
  orders := [⟨"alias_1.name", .descending⟩]
  columns := [⟨"alias_1.name", "name"⟩, ⟨"alias_1.age", "age"⟩, ⟨"this.name", "name"⟩]
  page := { limit := some 10, offset := some 7 }
  resultType := none

-- A third join and a third column come behind what was there, and the limit stays.
theorem toPlan_prolonged_staff :
    staff.Reachable ∧ staff.Prolongs prolongedStaff ∧
      prolongedStaff.toPlan .standard = .ok prolongedStaffPlan ∧
      staff.toPlan .standard = .ok staffPlan ∧
      prolongedStaffPlan.Continues staffPlan ∧
      prolongedStaffPlan.page.limit = staffPlan.page.limit := by
  have hprolongs : staff.Prolongs prolongedStaff :=
    Prolongs.chain (s := ⟨staff, []⟩) .refl _ (by decide)
  have hrun : prolongedStaff.toPlan .standard = .ok prolongedStaffPlan := by cbv
  obtain ⟨before, added, hplan, hgroups, hcontinues, hlimit, -⟩ :=
    toPlan_prolonged reachable_staff hprolongs hrun
  obtain rfl : staffPlan = before := Except.ok.inj (toPlan_staff.symm.trans hplan)
  exact ⟨reachable_staff, hprolongs, hrun, toPlan_staff, hcontinues, rfl⟩

end Spec

end PathQuery
