import PathQuery.Row
import PathQuery.Width

/-!
# Shape — records read from the objects of rows

A shape lists fields with types. Reading an object by a shape takes exactly those fields; a field
that is not required may be missing or null.
-/

namespace PathQuery

/-- The type of a field. -/
inductive FieldType where
  | int32
  | int64
  | text
deriving DecidableEq, Repr

/-- A field of a record. -/
structure Field where
  name : String
  type : FieldType
  required : Bool
deriving DecidableEq, Repr

abbrev Shape := List Field

namespace FieldType

/-- Whether a document value has the type. A number with a fractional part or a point in its
numeral is no integer. -/
def admits : FieldType → Json → Bool
  | .int32, .int i => decide (IsInt32 i)
  | .int64, .int i => decide (IsInt64 i)
  | .text, .str _ => true
  | _, _ => false

end FieldType

/-- The value of a field of an object. -/
def Field.read (f : Field) (object : Json) : Except String Json :=
  match object.field? f.name with
  | none => if f.required then .error s!"missing field {f.name}" else .ok .null
  | some .null => if f.required then .error s!"field {f.name} is null" else .ok .null
  | some v => if f.type.admits v then .ok v else .error s!"field {f.name} has another type"

/-- The values of the fields of a shape, in its order. -/
def Shape.read (shape : Shape) (object : Json) : Except String (List Json) :=
  shape.mapM fun f => f.read object

def Shape.target (name : String) (shape : Shape) : Target (List Json) :=
  ⟨name, shape.read⟩

end PathQuery
