import PathQuery.Condition.Kind
import PathQuery.Plan.Text

/-!
# Event — what building, compiling and running a query reports

Every event has a level and fields, all of them texts; the message is one of the fields.
-/

namespace PathQuery

open PathQuery.Text

inductive Level where
  | trace
  | debug
  | info
  | warn
  | error
deriving DecidableEq, Repr

/-- Why a condition may not stand where it was put: orderings and filters keep apart, and no filter
follows an ordering. -/
inductive OutOfOrder where
  | filterAfterOrdering
  | orderingInGroup
  | filterWithOrdering
deriving DecidableEq, Repr

namespace OutOfOrder

def reason : OutOfOrder → String
  | .filterAfterOrdering => "Cannot add a filter condition after an order by clause"
  | .orderingInGroup => "Order by clause cannot be combined with any other condition"
  | .filterWithOrdering => "Cannot combine a filter condition with an order by clause"

def warning : OutOfOrder → String
  | .filterAfterOrdering => "Rejected filter after order by"
  | .orderingInGroup => "Rejected order by inside a condition group"
  | .filterWithOrdering => "Rejected filter inside an order by group"

end OutOfOrder

/-- The figures of a compilation; a failed one has an error text. -/
structure CompilationReport where
  root : String
  groups : Nat
  clauses : Nat
  joins : Nat
  columns : Nat
  failure : Option String
deriving DecidableEq

/-- Something that happened. -/
inductive Event where
  /-- a condition was refused -/
  | rejected (cause : OutOfOrder) (root : String) (kind : Condition.Kind)
  /-- a condition was added to a group -/
  | inserted (root : String) (kind : Condition.Kind) (group size : Nat)
  /-- a relationship was joined -/
  | joined (j : Join)
  /-- a filter became a term -/
  | built (term : Predicate)
  /-- a handle took a clause -/
  | restricted (clause : Predicate)
  /-- a compilation ended -/
  | compiled (report : CompilationReport)
  /-- a plan was made -/
  | planned (root sql : String)
  /-- an engine's handle was filled -/
  | filled (root : String) (joins clauses : Nat)
  /-- an engine failed -/
  | engineFailed (operation error root : String)

namespace Event

def level : Event → Level
  | .rejected .. => .warn
  | .inserted .. => .debug
  | .joined .. => .debug
  | .built .. => .trace
  | .restricted .. => .trace
  | .compiled .. => .info
  | .planned .. => .debug
  | .filled .. => .debug
  | .engineFailed .. => .error

def reportFields (r : CompilationReport) : List (String × String) :=
  [("message", "COMPILE_OPERATION"), ("operation", "compile"), ("root_entity", r.root),
    ("groups", naturalText r.groups), ("clauses", naturalText r.clauses),
    ("joins", naturalText r.joins), ("projections", naturalText r.columns),
    ("status", if r.failure.isSome then "failed" else "success")] ++
  match r.failure with
  | none => []
  | some text => [("details", text)]

def fields : Event → List (String × String)
  | .rejected cause root kind =>
    [("message", cause.warning), ("root", root), ("kind", kind.text)]
  | .inserted root kind group size =>
    [("message", "Inserted condition"), ("root", root), ("kind", kind.text),
      ("group", naturalText group), ("group_size", naturalText size)]
  | .joined j =>
    [("message", "Registered join"), ("parent", j.parent), ("property", j.property),
      ("alias", j.ownAlias), ("kind", j.kind.label)]
  | .built term => [("message", "Built predicate term"), ("term", term.sql)]
  | .restricted clause => [("message", "Attached predicate"), ("predicate", clause.sql)]
  | .compiled report => reportFields report
  | .planned root sql => [("message", "Compiled query"), ("root", root), ("sql", sql)]
  | .filled root joins clauses =>
    [("message", "Compiled specification into engine handle"), ("root", root),
      ("joins", naturalText joins), ("clauses", naturalText clauses)]
  | .engineFailed operation error root =>
    [("message", "ERROR"), ("component", "executor"), ("operation", operation), ("error", error),
      ("context", root)]

end Event

end PathQuery
