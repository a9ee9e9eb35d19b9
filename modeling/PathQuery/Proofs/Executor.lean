import PathQuery.Executor
import PathQuery.Proofs.Frame
import PathQuery.Proofs.Session.Steps
import PathQuery.Proofs.Strict.Run

/-!
# Plans on their way to an engine

An engine is asked for a fresh plan, which is filled as a compilation of its own fills one, and then
it is asked once more, with exactly that plan. If the compilation fails nothing more is asked. What
an executor was used for before plays no part.
-/

namespace PathQuery

open Engine (Use)

/-- The answer of a step that starts without events, with the state that it leaves. -/
def Action.outcome {σ α : Type} (a : Action σ α) (start : σ) : Except Error (α × σ) :=
  match a ⟨start, []⟩ with
  | .ok x t => .ok (x, t.state)
  | .error e _ => .error e

/-! ## Compilations do not look back -/

namespace Spec

variable {settings : Settings} {spec : Spec}

theorem heedless_compile (settings : Settings) (spec : Spec) :
    (spec.compile settings).Heedless := by
  intro plan earlier events
  have hspec := (Session.composed_spec spec).heedless
    ⟨startTree settings spec plan.rootAlias, plan⟩ earlier events
  unfold startTree at hspec
  unfold compile
  dsimp only
  rw [hspec]
  cases Session.spec spec _ with
  | ok out t => simp only [Action.behind, List.append_assoc]
  | error e t => simp only [Action.behind, List.append_assoc]

-- A plan is what a compilation of its own leaves.
theorem toPlan_eq_bind (settings : Settings) (spec : Spec) :
    spec.toPlan settings =
      (spec.compile settings).outcome (.start spec.root settings.rootAlias) >>= fun out =>
        .ok out.2 := by
  unfold toPlan Action.result plan Action.outcome
  dsimp only [bind, EStateM.bind, Action.within]
  cases spec.compile settings ⟨.start spec.root settings.rootAlias, []⟩ with
  | ok c t => cases settings.logSql <;> rfl
  | error e t => rfl

-- Moves keep to the schema and the root entity.
theorem kept_chainFrom (cs : List Call) (previous : Option Nat) (s : Logged Spec) :
    (chainFrom previous cs s).2.state.schema = s.state.schema ∧
      (chainFrom previous cs s).2.state.root = s.state.root := by
  induction cs generalizing previous s with
  | nil => exact ⟨rfl, rfl⟩
  | cons c cs ih =>
    rw [chainFrom]
    split
    next index t run =>
      have hgrown := (grown_of_perform _ _ s).of_ok run
      obtain ⟨hschema, hroot⟩ := ih (some index) t
      exact ⟨hschema.trans hgrown.schema, hroot.trans hgrown.root⟩
    next e t run =>
      have hgrown := (grown_of_perform _ _ s).of_error run
      exact ⟨hgrown.schema, hgrown.root⟩

theorem Move.kept_play (m : Move) (s : Logged Spec) :
    (m.play s).2.state.schema = s.state.schema ∧ (m.play s).2.state.root = s.state.root := by
  cases m with
  | put placement request =>
    rw [play]
    split
    next index t run =>
      have hgrown := (grown_of_perform _ _ s).of_ok run
      exact ⟨hgrown.schema, hgrown.root⟩
    next e t run =>
      have hgrown := (grown_of_perform _ _ s).of_error run
      exact ⟨hgrown.schema, hgrown.root⟩
  | chain calls => exact kept_chainFrom calls none s
  | joinKind kind => exact ⟨rfl, rfl⟩
  | resultType target => exact ⟨rfl, rfl⟩

theorem kept_play (ms : List Move) (s : Logged Spec) :
    (play ms s).2.state.schema = s.state.schema ∧ (play ms s).2.state.root = s.state.root := by
  induction ms generalizing s with
  | nil => exact ⟨rfl, rfl⟩
  | cons m ms ih =>
    obtain ⟨hschema, hroot⟩ := ih (m.play s).2
    obtain ⟨hfirst, hfirst'⟩ := m.kept_play s
    exact ⟨hschema.trans hfirst, hroot.trans hfirst'⟩

theorem play_concat (ms : List Move) (m : Move) (s : Logged Spec) :
    (play (ms ++ [m]) s).2 = (m.play (play ms s).2).2 := by
  induction ms generalizing s with
  | nil => rfl
  | cons first ms ih => exact ih (first.play s).2

end Spec

/-- The plan when its columns are read as a target. -/
def Plan.readAs (p : Plan) (target : String) : Plan :=
  { p with resultType := if p.columns.isEmpty then p.resultType else some target }

namespace Spec

variable {settings : Settings} {spec : Spec}

/-- A result type makes no difference to a plan but as the type that its columns are read as. -/
theorem toPlan_withResultType (settings : Settings) (spec : Spec) (target : String) :
    (spec.withResultType target).toPlan settings =
      (spec.toPlan settings).map (·.readAs target) := by
  cases run : spec.toPlan settings with
  | ok plan =>
    obtain ⟨out, t, hgroups, rfl⟩ := toPlan_eq_ok_iff.1 run
    refine toPlan_eq_ok_iff.2 ⟨out, t, hgroups, ?_⟩
    have hnone : t.state.plan.columns = [] :=
      ((Session.tells_groups _ _ _).of_ok hgroups).columns.1
    unfold Plan.readAs Plan.withColumns
    cases out.2 with
    | nil => simp [hnone]
    | cons c cs => rfl
  | error e =>
    obtain ⟨t, hgroups⟩ := toPlan_eq_error_iff.1 run
    exact toPlan_eq_error_iff.2 ⟨t, hgroups⟩

end Spec

/-! ## Uses of an engine -/

namespace Action

variable {α β : Type}

/-- Whatever was done before, the action has this result and asks an engine this. -/
def Gives (a : Action (List Use) α) (r : Except Error α) (uses : List Use) : Prop :=
  ∀ s, a.Ensures s (fun x t => r = .ok x ∧ t.state = s.state ++ uses)
    fun e t => r = .error e ∧ t.state = s.state ++ uses

/-- What an action leaves, whether it has an answer or not. -/
def after {σ : Type} (a : Action σ α) (s : Logged σ) : Logged σ :=
  match a s with
  | .ok _ t => t
  | .error _ t => t

theorem Gives.state_after {a : Action (List Use) α} {r : Except Error α} {uses : List Use}
    (h : a.Gives r uses) (s : Logged (List Use)) : (a.after s).state = s.state ++ uses := by
  have hs := h s
  unfold Ensures at hs
  unfold after
  cases run : a s with
  | ok x t => rw [run] at hs; exact hs.2
  | error e t => rw [run] at hs; exact hs.2

theorem Gives.of_ok {a : Action (List Use) α} {r : Except Error α} {uses : List Use}
    (h : a.Gives r uses) {s t : Logged (List Use)} {x : α} (run : a s = .ok x t) : r = .ok x :=
  ((h s).of_ok run).1

theorem Gives.exists_ok {a : Action (List Use) α} {x : α} {uses : List Use}
    (h : a.Gives (.ok x) uses) (s : Logged (List Use)) : ∃ t, a s = .ok x t := by
  have hs := h s
  unfold Ensures at hs
  cases run : a s with
  | ok y t =>
    rw [run] at hs
    cases hs.1
    exact ⟨t, rfl⟩
  | error e t =>
    rw [run] at hs
    cases hs.1

theorem gives_pure (x : α) : (pure x : Action (List Use) α).Gives (.ok x) [] :=
  fun s => ensures_pure.2 ⟨rfl, (List.append_nil s.state).symm⟩

theorem gives_report (e : Event) : (report e : Action (List Use) Unit).Gives (.ok ()) [] :=
  fun s => ensures_report.2 ⟨rfl, (List.append_nil s.state).symm⟩

theorem gives_ofExcept (r : Except Error α) : (ofExcept r : Action (List Use) α).Gives r [] := by
  intro s
  have hnone : s.state = s.state ++ [] := (List.append_nil s.state).symm
  exact ensures_ofExcept.2 ⟨fun _ hx => ⟨hx, hnone⟩, fun _ he => ⟨he, hnone⟩⟩

theorem gives_use (u : Use) (operation root : String) (answer : Except Error α) :
    (Executor.use u operation root answer).Gives answer [u] := by
  intro s
  cases answer <;> exact ⟨rfl, rfl⟩

-- An action without a view of earlier events may as well come first.
theorem gives_within {σ : Type} {a : Action σ α} (h : a.Heedless) (start : σ) :
    (within start a : Action (List Use) (α × σ)).Gives (a.outcome start) [] := by
  intro s
  have hnone : s.state = s.state ++ [] := (List.append_nil s.state).symm
  rw [ensures_within, Ensures, h.eq_behind, outcome]
  cases a ⟨start, []⟩ <;> exact ⟨rfl, hnone⟩

/-- What comes behind is asked only if there is an answer. -/
theorem Gives.bind {a : Action (List Use) β} {f : β → Action (List Use) α} {r : Except Error β}
    {g : β → Except Error α} {uses : List Use} {more : β → List Use} (h : a.Gives r uses)
    (hf : ∀ x, r = .ok x → (f x).Gives (g x) (more x)) :
    (a >>= f).Gives (r >>= g) (uses ++ r.toOption.elim [] more) := by
  intro s
  rw [ensures_bind]
  refine (h s).imp (fun x t ht => ?_) fun e t ht => ?_
  · obtain ⟨hr, hstate⟩ := ht
    subst hr
    refine (hf x rfl t).imp (fun y u hu => ?_) fun e u hu => ?_
    · exact ⟨hu.1, by rw [hu.2, hstate, List.append_assoc]; rfl⟩
    · exact ⟨hu.1, by rw [hu.2, hstate, List.append_assoc]; rfl⟩
  · obtain ⟨hr, hstate⟩ := ht
    subst hr
    exact ⟨rfl, hstate.trans (congrArg _ (List.append_nil uses).symm)⟩

theorem Gives.next {a : Action (List Use) β} {f : β → Action (List Use) α} {y : β}
    {r : Except Error α} {uses more : List Use} (h : a.Gives (.ok y) uses)
    (hf : (f y).Gives r more) : (a >>= f).Gives r (uses ++ more) := by
  have hbind : (a >>= f).Gives (Except.ok y >>= fun _ => r)
      (uses ++ (Except.ok (ε := Error) y).toOption.elim [] fun _ => more) := by
    refine h.bind fun z hz => ?_
    cases hz
    exact hf
  exact hbind

theorem Gives.bind_silent {a : Action (List Use) β} {f : β → Action (List Use) α}
    {r : Except Error β} {g : β → Except Error α} {uses : List Use} (h : a.Gives r uses)
    (hf : ∀ x, r = .ok x → (f x).Gives (g x) []) : (a >>= f).Gives (r >>= g) uses := by
  have hbind := h.bind hf
  have hnone : r.toOption.elim [] (fun _ => []) = ([] : List Use) := by
    cases r.toOption <;> rfl
  rwa [hnone, List.append_nil] at hbind

end Action

/-! ## Executors -/

/-- The engine hands out fresh plans. -/
def Engine.Fresh (engine : Engine) : Prop :=
  ∀ entity rootAlias, engine.create entity rootAlias = .ok (.start entity.name rootAlias)

/-- The first of some rows as a target, if there is one. -/
def Target.readFirst {α : Type} (target : Target α) : List Row → Except Error (Option α)
  | [] => .ok none
  | row :: _ => some <$> row.readAs target

-- If all rows can be read, then so can the first one.
theorem Target.readFirst_of_mapM {α : Type} {target : Target α} {rows : List Row} {xs : List α}
    (h : rows.mapM (Row.readAs target) = .ok xs) : target.readFirst rows = .ok xs.head? := by
  cases rows with
  | nil =>
    cases h
    rfl
  | cons row rows =>
    rw [List.mapM_cons] at h
    obtain ⟨x, hx, h⟩ := Except.bind_eq_ok_iff.1 h
    obtain ⟨rest, -, h⟩ := Except.bind_eq_ok_iff.1 h
    cases h
    rw [readFirst, hx]
    rfl

namespace Executor

variable {α : Type} {x : Executor} {spec : Spec}

/-- The specification was started by the executor and built by calls, whichever of them failed. -/
def Builds (x : Executor) (spec : Spec) : Prop :=
  ∃ root start moves events, x.spec root = .ok start ∧
    spec = (Spec.play moves ⟨start, events⟩).2.state

theorem Builds.withResultType (h : x.Builds spec) (target : String) :
    x.Builds (spec.withResultType target) := by
  obtain ⟨root, start, moves, events, hstart, rfl⟩ := h
  refine ⟨root, start, moves ++ [.resultType target], events, hstart, ?_⟩
  rw [Spec.play_concat]
  rfl

-- The root entity of such a specification is one of the executor's.
theorem Builds.exists_entity (h : x.Builds spec) :
    ∃ entity, x.schema.entity spec.root = .ok entity ∧ entity.name = spec.root := by
  obtain ⟨root, start, moves, events, hstart, rfl⟩ := h
  obtain ⟨first, hfirst, h⟩ := Except.bind_eq_ok_iff.1 hstart
  obtain ⟨entity, hentity, hspec⟩ := Except.bind_eq_ok_iff.1 hfirst
  cases hspec
  cases h
  rw [(Spec.kept_play moves _).2]
  have hfound : x.schema.entities.find? (·.name == root) = some entity :=
    Schema.entity_eq_ok_iff.1 hentity
  have hname : entity.name = root := by simpa using List.find?_some hfound
  exact ⟨entity, hentity, hname⟩

/-- What the engine is asked for a specification: a plan, and if it can be filled, one thing
more. -/
def uses (x : Executor) (spec : Spec) (ask : Plan → Use) : List Use :=
  .create spec.root x.settings.rootAlias ::
    (spec.toPlan x.settings).toOption.elim [] fun plan => [ask plan]

section Fresh

variable (hengine : x.engine.Fresh) (h : x.Builds spec)

include hengine h

/-- The engine's plan is filled like a plan of its own. -/
theorem gives_compile :
    (x.compile spec).Gives (spec.toPlan x.settings) [.create spec.root x.settings.rootAlias] := by
  obtain ⟨entity, hentity, hname⟩ := h.exists_entity
  have hcreate :
      (use (.create entity.name x.settings.rootAlias) "create_root_criteria" spec.root
        (x.engine.create entity x.settings.rootAlias)).Gives
        (.ok (.start spec.root x.settings.rootAlias)) [.create spec.root x.settings.rootAlias] := by
    rw [hengine entity, hname]
    exact Action.gives_use _ _ _ _
  have hlast (out : Compilation × Plan) :
      (do
        Action.report (.filled spec.root out.1.tree.joinCount out.1.clauses)
        return out.2 : Action (List Use) Plan).Gives (.ok out.2) [] :=
    (Action.gives_report _).next (Action.gives_pure out.2)
  have hfill := (Action.gives_within (Spec.heedless_compile x.settings spec)
    (.start spec.root x.settings.rootAlias)).bind_silent fun out _ => hlast out
  rw [← Spec.toPlan_eq_bind] at hfill
  unfold compile
  rw [hentity]
  exact (Action.gives_ofExcept (.ok entity)).next (hcreate.next hfill)

theorem gives_rows :
    (x.rows spec).Gives (spec.toPlan x.settings >>= x.engine.list) (x.uses spec .list) :=
  (gives_compile hengine h).bind fun plan _ => Action.gives_use (.list plan) _ _ _

theorem gives_count :
    (x.count spec).Gives (spec.toPlan x.settings >>= x.engine.count) (x.uses spec .count) :=
  (gives_compile hengine h).bind fun plan _ => Action.gives_use (.count plan) _ _ _

theorem gives_list (target : Target α) :
    (x.list target spec).Gives
      (spec.toPlan x.settings >>= x.engine.list >>= fun rows => rows.mapM (Row.readAs target))
      (x.uses spec .list) :=
  (gives_rows hengine h).bind_silent fun _ _ => Action.gives_ofExcept _

theorem gives_first (target : Target α) :
    (x.first target spec).Gives
      (spec.toPlan x.settings >>= x.engine.list >>= target.readFirst) (x.uses spec .list) := by
  refine (gives_rows hengine h).bind_silent fun rows _ => ?_
  cases rows with
  | nil => exact Action.gives_pure none
  | cons row rows =>
    exact (Action.gives_ofExcept (row.readAs target)).bind_silent
      fun y _ => Action.gives_pure (some y)

/-- Rows that are read as a target are asked for by the same plan, but for its result type. -/
theorem gives_projected (target : Target α) :
    (x.projected target spec).Gives
      ((spec.toPlan x.settings).map (·.readAs target.name) >>= x.engine.list >>= fun rows =>
        rows.mapM (Row.readAs target))
      (x.uses spec fun plan => .list (plan.readAs target.name)) := by
  have hlist := gives_list hengine (h.withResultType target.name) target
  unfold uses at hlist ⊢
  rw [Spec.toPlan_withResultType] at hlist
  cases run : spec.toPlan x.settings with
  | ok plan => rw [run] at hlist; exact hlist
  | error e => rw [run] at hlist; exact hlist

end Fresh

/-! ## One operation after another -/

/-- What an executor can be asked for. -/
inductive Operation (α : Type) where
  | compile
  | rows
  | list (target : Target α)
  | first (target : Target α)
  | projected (target : Target α)
  | count

/-- Asks for one thing about a specification, and goes on whether there is an answer or not. -/
def serve (x : Executor) (spec : Spec) (s : Logged (List Use)) :
    Operation α → Logged (List Use)
  | .compile => (x.compile spec).after s
  | .rows => (x.rows spec).after s
  | .list target => (x.list target spec).after s
  | .first target => (x.first target spec).after s
  | .projected target => (x.projected target spec).after s
  | .count => (x.count spec).after s

/-- What the engine is asked for an operation. -/
def asks (x : Executor) (spec : Spec) : Operation α → List Use
  | .compile => [.create spec.root x.settings.rootAlias]
  | .rows | .list _ | .first _ => x.uses spec .list
  | .projected target => x.uses spec fun plan => .list (plan.readAs target.name)
  | .count => x.uses spec .count

theorem state_serve (hengine : x.engine.Fresh) (h : x.Builds spec) (s : Logged (List Use))
    (o : Operation α) : (x.serve spec s o).state = s.state ++ x.asks spec o := by
  cases o with
  | compile => exact (gives_compile hengine h).state_after s
  | rows => exact (gives_rows hengine h).state_after s
  | list target => exact (gives_list hengine h target).state_after s
  | first target => exact (gives_first hengine h target).state_after s
  | projected target => exact (gives_projected hengine h target).state_after s
  | count => exact (gives_count hengine h).state_after s

/-- Operations about a specification do not get in each other's way. -/
theorem state_foldl_serve (hengine : x.engine.Fresh) (h : x.Builds spec) (s : Logged (List Use))
    (os : List (Operation α)) :
    (os.foldl (x.serve spec) s).state = s.state ++ os.flatMap (x.asks spec) := by
  induction os generalizing s with
  | nil => exact (List.append_nil s.state).symm
  | cons o os ih =>
    rw [List.foldl_cons, ih, state_serve hengine h, List.append_assoc]
    rfl

-- Where no plan comes about the engine is asked for nothing but the plan to fill.
theorem asks_of_error {e : Error} (h : spec.toPlan x.settings = .error e) (o : Operation α) :
    x.asks spec o = [.create spec.root x.settings.rootAlias] := by
  cases o <;> simp [asks, uses, h, Except.toOption]

/-- On an engine with fresh plans every operation about a specification asks for one to fill and
then, once and only if a compilation of its own gives a plan, for what is in exactly that plan; a
target whose rows are read in columns changes its result type and nothing else. The answers are
those about that plan, the errors those of the compilation. No operation makes a difference to those
behind it, and if all rows can be read then the first of them is the first row. -/
theorem gives_plan (hengine : x.engine.Fresh) (h : x.Builds spec) (target : Target α) :
    (x.compile spec).Gives (spec.toPlan x.settings)
      [.create spec.root x.settings.rootAlias] ∧
    (x.rows spec).Gives (spec.toPlan x.settings >>= x.engine.list) (x.uses spec .list) ∧
    (x.list target spec).Gives
      (spec.toPlan x.settings >>= x.engine.list >>= fun rows => rows.mapM (Row.readAs target))
      (x.uses spec .list) ∧
    (x.first target spec).Gives
      (spec.toPlan x.settings >>= x.engine.list >>= target.readFirst) (x.uses spec .list) ∧
    (x.count spec).Gives (spec.toPlan x.settings >>= x.engine.count) (x.uses spec .count) ∧
    (x.projected target spec).Gives
      ((spec.toPlan x.settings).map (·.readAs target.name) >>= x.engine.list >>= fun rows =>
        rows.mapM (Row.readAs target))
      (x.uses spec fun plan => .list (plan.readAs target.name)) ∧
    (∀ e, spec.toPlan x.settings = .error e → ∀ s (o : Operation α),
      (x.serve spec s o).state = s.state ++ [.create spec.root x.settings.rootAlias]) ∧
    (∀ s (os : List (Operation α)),
      (os.foldl (x.serve spec) s).state = s.state ++ os.flatMap (x.asks spec)) ∧
    ∀ s s' xs t, x.list target spec s = .ok xs t →
      ∃ u, x.first target spec s' = .ok xs.head? u := by
  have hlist := gives_list hengine h target
  have hfirst := gives_first hengine h target
  refine ⟨gives_compile hengine h, gives_rows hengine h, hlist, hfirst, gives_count hengine h,
    gives_projected hengine h target, fun e he s o => ?_,
    fun s os => state_foldl_serve hengine h s os, fun s s' xs t run => ?_⟩
  · rw [state_serve hengine h, asks_of_error he]
  · obtain ⟨rows, hrows, hread⟩ := Except.bind_eq_ok_iff.1 (hlist.of_ok run)
    rw [hrows] at hfirst
    have hhead : (Except.ok rows >>= target.readFirst) = .ok xs.head? :=
      Target.readFirst_of_mapM hread
    rw [hhead] at hfirst
    exact hfirst.exists_ok s'

/-- An executor for employees over one row. -/
def staffExecutor : Executor :=
  ⟨.overRows [.ofList [("name", .string "Ada")]] none, Spec.staffSchema, .standard⟩

-- The employees are listed and counted under one plan, and the first of them is the only one.
theorem gives_plan_staff :
    staffExecutor.engine.Fresh ∧ staffExecutor.Builds Spec.staff ∧
      (staffExecutor.rows Spec.staff).Gives (.ok [.ofList [("name", .string "Ada")]])
        [.create "Employee" "this", .list Spec.staffPlan] ∧
      (staffExecutor.count Spec.staff).Gives (.ok 1)
        [.create "Employee" "this", .count Spec.staffPlan] ∧
      (staffExecutor.projected Target.object Spec.staff).Gives
        (.ok [Row.toObject (.ofList [("name", .string "Ada")])])
        [.create "Employee" "this",
          .list { Spec.staffPlan with resultType := some "object" }] := by
  have hengine : staffExecutor.engine.Fresh := fun _ _ => rfl
  have hbuilds : staffExecutor.Builds Spec.staff :=
    ⟨"Employee", _, [.chain Spec.staffCalls], [], rfl, rfl⟩
  have hplan : Spec.staff.toPlan staffExecutor.settings = .ok Spec.staffPlan := Spec.toPlan_staff
  obtain ⟨-, hrows, -, -, hcount, hprojected, -⟩ := gives_plan hengine hbuilds Target.object
  unfold uses at hrows hcount hprojected
  rw [hplan] at hrows hcount hprojected
  exact ⟨hengine, hbuilds, hrows, hcount, hprojected⟩

end Executor

end PathQuery
