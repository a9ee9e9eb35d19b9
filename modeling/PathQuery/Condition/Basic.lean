import PathQuery.Condition.Kind
import PathQuery.Path
import PathQuery.Value.Basic

/-!
# Condition — one thing asked of a property, and groups of them

Conditions are checked when they are made: the operands fit the kind, a list of operands is not
empty, and exactly the pagination kinds go without a path. The filters of one group are
alternatives.
-/

namespace PathQuery

/-- The operands of a condition. -/
inductive Operands where
  | none
  | single (v : Value)
  | pair (low high : Value)
  | many (vs : List Value)
deriving DecidableEq

namespace Operands

def arity : Operands → Condition.Arity
  | .none => .none
  | .single _ => .one
  | .pair _ _ => .two
  | .many _ => .many

/-- The operands in their order. -/
def toList : Operands → List Value
  | .none => []
  | .single v => [v]
  | .pair low high => [low, high]
  | .many vs => vs

def json : Operands → Json
  | .none => .str "None"
  | .single v => .obj [("Single", v.json)]
  | .pair low high => .obj [("Pair", .arr [low.json, high.json])]
  | .many vs => .obj [("Many", .arr (vs.map Value.json))]

end Operands

/-- A condition: what it asks for, of which path, with which operands. -/
structure Condition where
  path : Option Path
  kind : Condition.Kind
  operands : Operands
deriving DecidableEq

namespace Condition

/-- A condition whose operands and path fit its kind. -/
def make (path : Option Path) (kind : Kind) (operands : Operands) : Except Error Condition :=
  if operands.arity ≠ kind.arity then
    .error (.operandShape kind.text s!"{kind.arity.text} operand(s)")
  else if operands = .many [] then
    .error (.operandShape kind.text "at least one value")
  else if path.isNone ≠ kind.isPagination then
    .error (.unsupportedExpression
      s!"'{kind.text}' conditions take a property path unless they paginate")
  else
    .ok ⟨path, kind, operands⟩

/-- A pagination condition; a negative count is refused. -/
def paginate (kind : Kind) (count : Int64) : Except Error Condition :=
  if count.toInt < 0 then
    .error (.negativeArgument (if kind = .skip then "skip" else "take") count.toInt)
  else
    make none kind (.single (.int64 count))

/-- The path of a condition that has to have one. -/
def requirePath (c : Condition) : Except Error Path :=
  match c.path with
  | some p => .ok p
  | none => .error (.unsupportedExpression s!"'{c.kind.text}' condition has no property path")

def shapeError (c : Condition) (expected : String) : Error :=
  .operandShape c.kind.text expected

def single (c : Condition) : Except Error Value :=
  match c.operands with
  | .single v => .ok v
  | _ => .error (c.shapeError "a single operand")

def pair (c : Condition) : Except Error (Value × Value) :=
  match c.operands with
  | .pair low high => .ok (low, high)
  | _ => .error (c.shapeError "a pair of operands")

def many (c : Condition) : Except Error (List Value) :=
  match c.operands with
  | .many vs => .ok vs
  | _ => .error (c.shapeError "a list of operands")

/-- The number of rows that a pagination condition names. -/
def count (c : Condition) : Except Error Nat := do
  match ← c.single with
  | .int64 n =>
    if n.toInt < 0 then .error (.negativeArgument c.kind.text n.toInt) else .ok n.toInt.toNat
  | _ => .error (c.shapeError "a row count")

def json (c : Condition) : Json :=
  .obj [("path", .ofOption Path.json c.path), ("kind", .str c.kind.text),
    ("operands", c.operands.json)]

/-- Conditions that stand together; the filters among them are alternatives. -/
structure Group where
  conditions : List Condition
deriving DecidableEq

namespace Group

def size (g : Group) : Nat :=
  g.conditions.length

def isEmpty (g : Group) : Bool :=
  g.conditions.isEmpty

def hasOrdering (g : Group) : Bool :=
  g.conditions.any fun c => c.kind.isOrdering

/-- Adds a condition at the end. -/
def push (g : Group) (c : Condition) : Group :=
  ⟨g.conditions ++ [c]⟩

def json (g : Group) : Json :=
  .obj [("conditions", .arr (g.conditions.map Condition.json))]

end Group

end Condition

/-- The entity whose columns a selection of the path stands for, or nothing for a plain column.
Relationships by key and collections of anything but entities have no columns. -/
def Path.selectedEntity (p : Path) : Except Error (Option String) :=
  let declared := p.terminal.declared
  if !declared.isNavigation then .ok none
  else if declared.arity > 1 then
    .error (.unsupportedProjection p.dotted
      s!"'{declared.text}' has more than one level of generic nesting")
  else
    match declared with
    | .collection (.reference entity) => .ok (some entity)
    | .collection element =>
      .error (.unsupportedProjection p.dotted
        s!"collection element '{element.text}' is not an entity")
    | _ => .ok declared.target?

end PathQuery
