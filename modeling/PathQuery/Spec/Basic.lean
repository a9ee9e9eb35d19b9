import PathQuery.Action
import PathQuery.Condition.Basic

/-!
# Spec — the description of a query

A specification is a list of groups, all of which apply; the filters inside one group are
alternatives. Orderings keep apart from filters: an ordering opens a group of its own, and no filter
opens a group after it. Conditions are only ever added.
-/

namespace PathQuery

open Condition (Kind Group)

/-- The description of a query over one root entity. -/
structure Spec where
  schema : Schema
  root : String
  joinKind : JoinKind
  groups : List Group
  resultType : Option String
deriving DecidableEq

/-- Where a condition is put. -/
inductive Placement where
  | newGroup
  | group (index : Nat)
deriving DecidableEq, Repr

/-- Why a condition cannot be put somewhere. -/
inductive Misplacement where
  | noGroup (index : Nat)
  | outOfOrder (cause : OutOfOrder)
deriving DecidableEq, Repr

def Misplacement.reason : Misplacement → String
  | .noGroup index => s!"No condition group at index {index}"
  | .outOfOrder cause => cause.reason

namespace Spec

/-- A specification without conditions; the schema has to know the root entity. -/
def start (schema : Schema) (root : String) : Except Error Spec := do
  let _ ← schema.entity root
  return ⟨schema, root, .inner, [], none⟩

def withJoinKind (spec : Spec) (kind : JoinKind) : Spec :=
  { spec with joinKind := kind }

def withResultType (spec : Spec) (target : String) : Spec :=
  { spec with resultType := some target }

def isEmpty (spec : Spec) : Bool :=
  spec.groups.isEmpty

/-! ## Views -/

/-- All conditions, group by group. -/
def conditions (spec : Spec) : List Condition :=
  spec.groups.flatMap Group.conditions

/-- The paths of the conditions of one kind. -/
def pathsOf (spec : Spec) (kind : Kind) : List Path :=
  (spec.conditions.filter fun c => c.kind == kind).filterMap Condition.path

def fetches (spec : Spec) : List Path :=
  spec.pathsOf .fetch

def selections (spec : Spec) : List Path :=
  spec.pathsOf .select

def orderings (spec : Spec) : List (Path × Kind) :=
  (spec.conditions.filter fun c => c.kind.isOrdering).filterMap fun c =>
    c.path.map fun p => (p, c.kind)

/-- The count of a pagination condition replaces the one before. -/
def turnPage (page : Page) (c : Condition) : Page :=
  match c.kind with
  | .skip => { page with offset := c.count.toOption }
  | _ => { page with limit := c.count.toOption }

/-- The page that the pagination conditions ask for. -/
def page (spec : Spec) : Page :=
  (spec.conditions.filter fun c => c.kind.isPagination).foldl turnPage .unset

/-! ## Placing conditions -/

/-- The index of the group that a condition of a kind would be put into. -/
def slot (spec : Spec) (placement : Placement) (kind : Kind) : Except Misplacement Nat :=
  match placement with
  | .newGroup =>
    if kind.isFilter && spec.groups.any Group.hasOrdering then
      .error (.outOfOrder .filterAfterOrdering)
    else
      .ok spec.groups.length
  | .group index =>
    match spec.groups[index]? with
    | none => .error (.noGroup index)
    | some group =>
      if kind.isOrdering then .error (.outOfOrder .orderingInGroup)
      else if kind.isFilter && group.hasOrdering then .error (.outOfOrder .filterWithOrdering)
      else .ok index

/-- Adds a condition to the group at an index, or as a new group behind the last one. -/
def putAt (spec : Spec) (index : Nat) (c : Condition) : Spec :=
  if index < spec.groups.length then
    { spec with groups := spec.groups.modify index fun g => g.push c }
  else
    { spec with groups := spec.groups ++ [⟨[c]⟩] }

/-- The number of conditions in the group at an index. -/
def groupSize (spec : Spec) (index : Nat) : Nat :=
  (spec.groups[index]?.map Group.size).getD 0

/-- Puts a condition in its place and answers the index of its group. -/
def place (placement : Placement) (c : Condition) : Action Spec Nat := do
  let spec ← Action.current
  match spec.slot placement c.kind with
  | .ok index =>
    let next := spec.putAt index c
    Action.put next
    Action.report (.inserted next.root c.kind index (next.groupSize index))
    return index
  | .error misplacement =>
    if let .outOfOrder cause := misplacement then
      Action.report (.rejected cause spec.root c.kind)
    throw (.invalidSequence misplacement.reason)

/-! ## Inserting -/

/-- What a kind asks of the end of a path: a selection needs columns, a fetch a relationship. -/
def checkTerminal (spec : Spec) (path : Path) (kind : Kind) : Except Error Unit :=
  match kind with
  | .select => do
    if let some entity ← path.selectedEntity then
      let _ ← spec.schema.entity entity
  | .fetch =>
    if path.terminal.declared.isNavigation then .ok ()
    else .error (.nonNavigable spec.root path.dotted)
  | _ => .ok ()

/-- The conditions that an insertion adds, one for each path. Only a selection may have several. -/
def prepare (spec : Spec) (a : Accessor) (kind : Kind) (operands : Operands) :
    Except Error (List Condition) := do
  let paths ← spec.schema.paths spec.root a
  if paths.length > 1 ∧ kind ≠ .select then
    throw (.unsupportedExpression s!"'{kind.text}' accepts a single property path")
  paths.mapM fun path => do
    spec.checkTerminal path kind
    Condition.make (some path) kind operands

/-- Inserts a condition for every path of the accessor and answers the group of the last one. No
condition is placed unless all can be made. -/
def insert (placement : Placement) (a : Accessor) (kind : Kind) (operands : Operands) :
    Action Spec Nat := do
  let spec ← Action.current
  let conditions ← Action.ofExcept (spec.prepare a kind operands)
  conditions.foldlM (fun _ c => place placement c) 0

/-- Inserts a pagination condition. -/
def paginate (placement : Placement) (kind : Kind) (count : Int64) : Action Spec Nat := do
  let c ← Action.ofExcept (Condition.paginate kind count)
  place placement c

end Spec

end PathQuery
