import PathQuery.Compile
import PathQuery.Engine

/-!
# Executor — specifications run on an engine

Every operation compiles the specification into a fresh plan of the engine and uses the engine once
more on it. The uses are recorded in their order.
-/

namespace PathQuery

/-- An engine with the schema and the settings to use it with. -/
structure Executor where
  engine : Engine
  schema : Schema
  settings : Settings

namespace Executor

/-- Records a use of the engine and gives its answer; a failure is reported. -/
def use {α : Type} (use : Engine.Use) (operation root : String) (answer : Except Error α) :
    Action (List Engine.Use) α := fun s =>
  let uses := s.state ++ [use]
  match answer with
  | .ok a => .ok a ⟨uses, s.events⟩
  | .error e => .error e ⟨uses, s.events ++ [.engineFailed operation e.message root]⟩

/-- A specification without conditions, under the join kind of the settings. -/
def spec (x : Executor) (root : String) : Except Error Spec := do
  return (← Spec.start x.schema root).withJoinKind x.settings.joinKind

/-- Compiles a specification into a plan of the engine. -/
def compile (x : Executor) (spec : Spec) : Action (List Engine.Use) Plan := do
  let entity ← Action.ofExcept (x.schema.entity spec.root)
  let start ← use (.create entity.name x.settings.rootAlias) "create_root_criteria" spec.root
    (x.engine.create entity x.settings.rootAlias)
  let (compilation, plan) ← Action.within start (spec.compile x.settings)
  Action.report (.filled spec.root compilation.tree.joinCount compilation.clauses)
  return plan

/-- The rows of a specification. -/
def rows (x : Executor) (spec : Spec) : Action (List Engine.Use) (List Row) := do
  let plan ← x.compile spec
  use (.list plan) "list" spec.root (x.engine.list plan)

/-- The rows, all of which have to read as the target. -/
def list {α : Type} (x : Executor) (target : Target α) (spec : Spec) :
    Action (List Engine.Use) (List α) := do
  let rows ← x.rows spec
  Action.ofExcept (rows.mapM (Row.readAs target))

/-- The first row, if there is one, read as the target. -/
def first {α : Type} (x : Executor) (target : Target α) (spec : Spec) :
    Action (List Engine.Use) (Option α) := do
  match ← x.rows spec with
  | [] => return none
  | row :: _ => return some (← Action.ofExcept (row.readAs target))

/-- The rows read as the target, whose name becomes the result type of the plan. -/
def projected {α : Type} (x : Executor) (target : Target α) (spec : Spec) :
    Action (List Engine.Use) (List α) :=
  x.list target (spec.withResultType target.name)

/-- The number of rows of a specification. -/
def count (x : Executor) (spec : Spec) : Action (List Engine.Use) Nat := do
  let plan ← x.compile spec
  use (.count plan) "count" spec.root (x.engine.count plan)

end Executor

end PathQuery
