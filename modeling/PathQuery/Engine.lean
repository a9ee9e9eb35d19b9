import PathQuery.Plan.Basic
import PathQuery.Row
import PathQuery.Schema

/-!
# Engine — what runs a plan
-/

namespace PathQuery

/-- What an engine can do: hand out a plan to fill, list its rows, count them. -/
structure Engine where
  create : Entity → String → Except Error Plan
  list : Plan → Except Error (List Row)
  count : Plan → Except Error Nat

namespace Engine

/-- One use of an engine. -/
inductive Use where
  | create (entity rootAlias : String)
  | list (plan : Plan)
  | count (plan : Plan)

/-- What an engine is asked to do. -/
inductive Operation where
  | create
  | list
  | count
deriving DecidableEq, Repr

def Operation.name : Operation → String
  | .create => "create"
  | .list => "list"
  | .count => "count"

/-- An operation that always fails, with its message. -/
structure Fault where
  operation : Operation
  message : String

/-- The answer of an operation, unless it is the one that fails. -/
def answer {α : Type} (fault : Option Fault) (operation : Operation) (a : α) : Except Error α :=
  match fault with
  | some f => if f.operation = operation then .error (.engine operation.name f.message) else .ok a
  | none => .ok a

/-- An engine over a fixed list of rows. Of a plan it honours the page alone, and it counts all
rows. -/
def overRows (rows : List Row) (fault : Option Fault) : Engine where
  create entity rootAlias := answer fault .create (Plan.start entity.name rootAlias)
  list plan := answer fault .list (plan.page.rows rows)
  count _ := answer fault .count rows.length

end Engine

end PathQuery
