import PathQuery.Error
import PathQuery.Fields
import PathQuery.Value.Basic

/-!
# Row — cells by column name, in the order of their first assignment
-/

namespace PathQuery

/-- A row; no two cells have the same name. -/
structure Row where
  cells : Fields Value
deriving DecidableEq

namespace Row

def empty : Row :=
  ⟨[]⟩

/-- Replaces the value of a name in its place, or adds a cell at the end. -/
def set (r : Row) (name : String) (v : Value) : Row :=
  ⟨r.cells.insert name v⟩

def ofList (cells : List (String × Value)) : Row :=
  cells.foldl (fun r cell => r.set cell.1 cell.2) empty

def get? (r : Row) (name : String) : Option Value :=
  r.cells.get? name

def names (r : Row) : List String :=
  r.cells.map (·.1)

def size (r : Row) : Nat :=
  r.cells.length

def isEmpty (r : Row) : Bool :=
  r.cells.isEmpty

/-- The row as an object whose fields are ordered by name. -/
def toObject (r : Row) : Json :=
  .obj ((r.cells.map fun cell => (cell.1, cell.2.json)).mergeSort
    fun a b => decide (a.1 ≤ b.1))

/-- The row as a document that keeps its order. -/
def json (r : Row) : Json :=
  .obj [("columns", .arr (r.cells.map fun cell => .arr [.str cell.1, cell.2.json]))]

end Row

/-- What rows are read as: a name for messages and a reader of their objects. -/
structure Target (α : Type) where
  name : String
  read : Json → Except String α

/-- Objects as they are. -/
def Target.object : Target Json :=
  ⟨"object", .ok⟩

/-- Reads the object of a row. -/
def Row.readAs {α : Type} (target : Target α) (r : Row) : Except Error α :=
  match target.read r.toObject with
  | .ok a => .ok a
  | .error reason => .error (.resultMapping target.name reason)

end PathQuery
