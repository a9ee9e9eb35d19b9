import PathQuery.Error
import PathQuery.Json
import PathQuery.Scalar

/-!
# Schema — entities and the declared types of their properties

A property is a plain column or leads to other entities. Entities are found by name; of two with
one name the later counts. Properties are found by name as well; of two with one name the first
counts.
-/

namespace PathQuery

/-- The declared type of a property. -/
inductive Declared where
  | scalar (t : Scalar)
  /-- a column that may be null -/
  | nullable (t : Scalar)
  /-- a relationship to one entity -/
  | reference (entity : String)
  /-- a relationship to many -/
  | collection (element : Declared)
  /-- a relationship by key -/
  | keyed (key value : Declared)
deriving DecidableEq

namespace Declared

/-- Whether the property leads to other entities. -/
def isNavigation : Declared → Bool
  | .reference _ | .collection _ | .keyed _ _ => true
  | _ => false

/-- The number of type arguments. -/
def arity : Declared → Nat
  | .collection _ => 1
  | .keyed _ _ => 2
  | _ => 0

/-- The entity that a path continues with, for a reference and for a collection of references. -/
def target? : Declared → Option String
  | .reference entity => some entity
  | .collection (.reference entity) => some entity
  | _ => none

/-- The type that operands are converted to. A nullable number or time compares like one that is
never null; other nullable columns take operands as they are. -/
def comparison? : Declared → Option Scalar
  | .scalar t => some t
  | .nullable t => if t.isNumeric || t.isTemporal then some t else none
  | _ => none

/-- The display text. -/
def text : Declared → String
  | .scalar t => t.text
  | .nullable t => t.text ++ "?"
  | .reference entity => entity
  | .collection element => "list<" ++ element.text ++ ">"
  | .keyed key value => "map<" ++ key.text ++ ", " ++ value.text ++ ">"

def json : Declared → Json
  | .scalar t => .obj [("Scalar", .str t.name)]
  | .nullable t => .obj [("Optional", .str t.name)]
  | .reference entity => .obj [("Entity", .str entity)]
  | .collection element => .obj [("Collection", element.json)]
  | .keyed key value => .obj [("Map", .arr [key.json, value.json])]

end Declared

/-- A named property. -/
structure Property where
  name : String
  declared : Declared
deriving DecidableEq

def Property.json (p : Property) : Json :=
  .obj [("name", .str p.name), ("declared", p.declared.json)]

/-- A named type with its properties in the order of declaration. -/
structure Entity where
  name : String
  properties : List Property
deriving DecidableEq

namespace Entity

def find? (e : Entity) (name : String) : Option Property :=
  e.properties.find? fun p => p.name == name

/-- The properties that are plain columns. -/
def columns (e : Entity) : List Property :=
  e.properties.filter fun p => !p.declared.isNavigation

def json (e : Entity) : Json :=
  .obj [("name", .str e.name), ("properties", .arr (e.properties.map Property.json))]

end Entity

/-- Entities with names of their own. -/
structure Schema where
  entities : List Entity
deriving DecidableEq

namespace Schema

def empty : Schema :=
  ⟨[]⟩

/-- Adds an entity; an earlier one of the same name gives way. -/
def insert (s : Schema) (e : Entity) : Schema :=
  ⟨(s.entities.filter fun other => other.name != e.name) ++ [e]⟩

def ofList (es : List Entity) : Schema :=
  es.foldl insert empty

def size (s : Schema) : Nat :=
  s.entities.length

def isEmpty (s : Schema) : Bool :=
  s.entities.isEmpty

def entity? (s : Schema) (name : String) : Option Entity :=
  s.entities.find? fun e => e.name == name

/-- The entity of that name, which has to be there. -/
def entity (s : Schema) (name : String) : Except Error Entity :=
  match s.entity? name with
  | some e => .ok e
  | none => .error (.unknownEntity name)

/-- The property of that name on the named entity, both of which have to be there. -/
def property (s : Schema) (entity name : String) : Except Error Property := do
  match (← s.entity entity).find? name with
  | some p => .ok p
  | none => .error (.unknownProperty entity name)

end Schema

end PathQuery
