import PathQuery.Schema

/-!
# Path — property accessors and the schema-checked paths they resolve to

An accessor is written by the caller and may name anything. A path is what a schema makes of it: a
chain of properties from the root entity, each of which but the last leads to the next entity.
-/

namespace PathQuery

/-- A property accessor as the caller writes it. -/
inductive Accessor where
  | root
  | member (owner : Accessor) (name : String)
  /-- a widening of the compared type, without effect on the path -/
  | widen (operand : Accessor) (target : Scalar)
  | tuple (items : List Accessor)

namespace Accessor

/-- The chain of member accesses from the root. -/
def chain (names : List String) : Accessor :=
  names.foldl member root

/-- The accessor without the widenings around it. -/
def bare : Accessor → Accessor
  | .widen operand _ => operand.bare
  | a => a

/-- The property names of a chain, from the root on. Widenings may stand anywhere in it, tuples
nowhere. -/
def names : Accessor → Except Error (List String)
  | .root => .ok []
  | .member owner name => do return (← owner.names) ++ [name]
  | .widen operand _ => operand.names
  | .tuple _ => .error (.unsupportedExpression "tuple accessor nested inside a property chain")

-- The widenings around an accessor say nothing about its names.
@[simp]
theorem names_bare (a : Accessor) : a.bare.names = a.names := by
  fun_induction bare a with
  | case1 operand target ih => exact ih
  | case2 => rfl

end Accessor

/-- One resolved property of a path. -/
abbrev Segment := Property

/-- A resolved chain of properties: relationships, and the property they end in. -/
structure Path where
  root : String
  navigation : List Segment
  terminal : Segment
deriving DecidableEq

namespace Path

def segments (p : Path) : List Segment :=
  p.navigation ++ [p.terminal]

def length (p : Path) : Nat :=
  p.segments.length

def isEmpty (p : Path) : Bool :=
  p.segments.isEmpty

/-- The property names with points between them. -/
def dotted (p : Path) : String :=
  ".".intercalate (p.segments.map (·.name))

/-- The display text, which begins with the root entity. -/
def text (p : Path) : String :=
  p.root ++ "." ++ p.dotted

def json (p : Path) : Json :=
  .obj [("root", .str p.root), ("segments", .arr (p.segments.map Property.json))]

end Path

namespace Schema

/-- Follows names from an entity: the relationships on the way and the property at the end. Every
property but the last has to lead to an entity. -/
def follow (s : Schema) (entity name : String) :
    List String → Except Error (List Segment × Segment)
  | [] => do return ([], ← s.property entity name)
  | next :: rest => do
    let p ← s.property entity name
    match p.declared.target? with
    | none => .error (.nonNavigable entity name)
    | some target =>
      let (navigation, terminal) ← s.follow target next rest
      return (p :: navigation, terminal)

/-- The path of an accessor that describes exactly one; the widenings around it are dropped. -/
def path (s : Schema) (root : String) (a : Accessor) : Except Error Path := do
  match ← a.bare.names with
  | [] => .error (.unsupportedExpression s!"accessor on '{root}' does not reference a property")
  | name :: rest =>
    let (navigation, terminal) ← s.follow root name rest
    return ⟨root, navigation, terminal⟩

/-- The paths of an accessor: those of its items for a tuple, otherwise its own. -/
def paths (s : Schema) (root : String) (a : Accessor) : Except Error (List Path) :=
  match a.bare with
  | .tuple items => items.mapM (s.path root)
  | single => do return [← s.path root single]

end Schema

end PathQuery
