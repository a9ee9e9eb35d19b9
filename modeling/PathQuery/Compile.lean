import PathQuery.JoinTree
import PathQuery.Settings.Basic
import PathQuery.Spec.Basic
import PathQuery.Value.Convert

/-!
# Compile — from a specification to the instructions for a handle

Every group with filters becomes one clause, the disjunction of its terms. Orderings and pages go to
the handle as they are met, selected columns at the end. Relationships are joined when they are
first used.
-/

namespace PathQuery

open Condition (Kind Group)

/-! ## Terms -/

namespace Condition

/-- An operand as the declared type of the path's end, for the kinds that convert. -/
def operand (c : Condition) (path : Path) (v : Value) : Except Error Value :=
  match path.terminal.declared.comparison? with
  | none => .ok v
  | some t =>
    if c.kind.converts then
      match v.convert t with
      | some w => .ok w
      | none => .error (.operandConversion path.dotted t.text s!"{v.typeName} '{v.text}'")
    else
      .ok v

/-- The term of a filter on an alias-qualified property. -/
def term (c : Condition) (path : Path) (property : String) : Except Error Predicate :=
  match c.kind with
  | .equal => do return .equal property (← c.operand path (← c.single))
  | .notEqual => do return .not (.equal property (← c.operand path (← c.single)))
  | .isIn => do return .oneOf property (← (← c.many).mapM (c.operand path))
  | .isNotIn => do return .not (.oneOf property (← (← c.many).mapM (c.operand path)))
  | .between => do
    let (low, high) ← c.pair
    return .between property (← c.operand path low) (← c.operand path high)
  | .isNull => .ok (.isNull property)
  | .isNotNull => .ok (.isNotNull property)
  | .like => do return .like property (← c.single)
  | .notLike => do return .not (.like property (← c.single))
  | .greaterThan => do return .compare property .gt (← c.single)
  | .greaterOrEqual => do return .compare property .ge (← c.single)
  | .lessThan => do return .compare property .lt (← c.single)
  | .lessOrEqual => do return .compare property .le (← c.single)
  | kind => .error (.unimplementedKind kind.text path.dotted)

end Condition

/-! ## Conditions and groups -/

/-- What a condition adds to its group and to the columns of the plan. -/
structure Contribution where
  terms : List Predicate
  columns : List Column

namespace Contribution

def nothing : Contribution :=
  ⟨[], []⟩

end Contribution

namespace Session

/-- Orders by the end of a path. -/
def order (path : Path) (direction : Direction) : Action Session Unit := do
  issue (.order ⟨← qualify path, direction⟩)

/-- The columns that a selection stands for: one of its own, or all of the related entity. -/
def select (schema : Schema) (path : Path) : Action Session (List Column) := do
  let parent ← owner path
  match ← Action.ofExcept path.selectedEntity with
  | none => return [⟨(← aliasOf parent) ++ "." ++ path.terminal.name, path.terminal.name⟩]
  | some target =>
    let entity ← Action.ofExcept (schema.entity target)
    let qualifier ← aliasOf (← join parent path.terminal)
    return entity.columns.map fun p => ⟨qualifier ++ "." ++ p.name, p.name⟩

/-- Joins the relationship at the end of a path. -/
def fetch (path : Path) : Action Session Unit := do
  let parent ← owner path
  let _ ← join parent path.terminal

/-- The term of a filter. -/
def filter (c : Condition) (path : Path) : Action Session Predicate := do
  let term ← Action.ofExcept (c.term path (← qualify path))
  Action.report (.built term)
  return term

/-- Carries out one condition. -/
def condition (schema : Schema) (c : Condition) : Action Session Contribution :=
  match c.kind with
  | .skip => do
    issue (.offset (← Action.ofExcept c.count))
    return .nothing
  | .take => do
    issue (.limit (← Action.ofExcept c.count))
    return .nothing
  | .orderAsc => do
    order (← Action.ofExcept c.requirePath) .ascending
    return .nothing
  | .orderDesc => do
    order (← Action.ofExcept c.requirePath) .descending
    return .nothing
  | .select => do
    return ⟨[], ← select schema (← Action.ofExcept c.requirePath)⟩
  | .fetch => do
    fetch (← Action.ofExcept c.requirePath)
    return .nothing
  | _ => do
    return ⟨[← filter c (← Action.ofExcept c.requirePath)], []⟩

/-- Carries out conditions one after the other. -/
def conditions (schema : Schema) : List Condition → Action Session Contribution
  | [] => return .nothing
  | c :: cs => do
    let first ← condition schema c
    let rest ← conditions schema cs
    return ⟨first.terms ++ rest.terms, first.columns ++ rest.columns⟩

/-- Carries out a group. Its terms, if there are any, become one clause; the answer is the number
of clauses and the selected columns. -/
def group (schema : Schema) (g : Group) : Action Session (Nat × List Column) := do
  let c ← conditions schema g.conditions
  if c.terms.isEmpty then
    return (0, c.columns)
  else
    issue (.restrict (.or c.terms))
    return (1, c.columns)

/-- Carries out groups one after the other. -/
def groups (schema : Schema) : List Group → Action Session (Nat × List Column)
  | [] => return (0, [])
  | g :: gs => do
    let (clauses, columns) ← group schema g
    let (moreClauses, moreColumns) ← groups schema gs
    return (clauses + moreClauses, columns ++ moreColumns)

/-- Hands over the selected columns, and with them the result type. -/
def project (columns : List Column) (resultType : Option String) : Action Session Unit :=
  if columns.isEmpty then
    return
  else do
    issue (.select columns)
    match resultType with
    | none => return
    | some target => issue (.bindResult target)

/-- Carries out a specification; the answer is the number of clauses and of columns. -/
def spec (spec : Spec) : Action Session (Nat × Nat) := do
  let (clauses, columns) ← groups spec.schema spec.groups
  project columns spec.resultType
  return (clauses, columns.length)

end Session

/-! ## Whole compilations -/

/-- The result of a compilation. -/
structure Compilation where
  tree : JoinTree
  clauses : Nat
  columns : Nat

namespace Spec

/-- Compiles into a handle, under joins of its own, and reports how it went. A failed compilation
leaves in the handle what it had received. -/
def compile (settings : Settings) (spec : Spec) : Action Plan Compilation := fun s =>
  let tree := JoinTree.start spec.root s.state.rootAlias settings.stem spec.joinKind
  match Session.spec spec ⟨⟨tree, s.state⟩, s.events⟩ with
  | .ok (clauses, columns) ⟨⟨tree, plan⟩, events⟩ =>
    .ok ⟨tree, clauses, columns⟩ ⟨plan, events ++
      [.compiled ⟨spec.root, spec.groups.length, clauses, tree.joinCount, columns, none⟩]⟩
  | .error e ⟨⟨tree, plan⟩, events⟩ =>
    .error e ⟨plan, events ++
      [.compiled ⟨spec.root, spec.groups.length, 0, tree.joinCount, 0, some e.message⟩]⟩

/-- Compiles into a fresh plan under the root alias of the settings. -/
def plan {σ : Type} (settings : Settings) (spec : Spec) : Action σ Plan := do
  let (_, plan) ← Action.within (Plan.start spec.root settings.rootAlias) (spec.compile settings)
  if settings.logSql then
    Action.report (.planned spec.root plan.sql)
  return plan

/-- The plan of a specification, or the first error. -/
def toPlan (settings : Settings) (spec : Spec) : Except Error Plan :=
  Action.result (spec.plan settings) ()

end Spec

end PathQuery
