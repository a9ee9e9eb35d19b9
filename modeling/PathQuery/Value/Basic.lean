import PathQuery.Calendar.Text
import PathQuery.Json
import PathQuery.Scalar
import PathQuery.Uuid

/-!
# Value — operands of conditions and cells of rows

A decimal is its text, which is never normalised.
-/

namespace PathQuery

open PathQuery.Text

/-- A literal operand or the cell of a row. -/
inductive Value where
  | null
  | bool (b : Bool)
  | int32 (i : Int32)
  | int64 (i : Int64)
  | float64 (f : Binary64)
  | decimal (numeral : String)
  | string (s : String)
  | date (d : Date)
  | dateTime (dt : DateTime)
  | uuid (u : Uuid)
deriving DecidableEq

namespace Value

def isNull : Value → Bool
  | .null => true
  | _ => false

/-- The scalar type of a value other than null. -/
def scalar? : Value → Option Scalar
  | .null => none
  | .bool _ => some .bool
  | .int32 _ => some .int32
  | .int64 _ => some .int64
  | .float64 _ => some .float64
  | .decimal _ => some .decimal
  | .string _ => some .string
  | .date _ => some .date
  | .dateTime _ => some .dateTime
  | .uuid _ => some .uuid

/-- The name of the value's type in messages. -/
def typeName (v : Value) : String :=
  match v.scalar? with
  | none => "null"
  | some t => t.text

/-- The display text. -/
def text : Value → String
  | .null => "null"
  | .bool true => "true"
  | .bool false => "false"
  | .int32 i => integerText i.toInt
  | .int64 i => integerText i.toInt
  | .float64 f => String.ofList f.display
  | .decimal numeral => numeral
  | .string s => s
  | .date d => String.ofList d.text
  | .dateTime dt => String.ofList dt.text
  | .uuid u => String.ofList u.text

/-- Numbers, truth values and null are themselves in a document, all others are their text. A
number that is not finite has no place in a document and becomes null. -/
def json : Value → Json
  | .null => .null
  | .bool b => .bool b
  | .int32 i => .int i.toInt
  | .int64 i => .int i.toInt
  | .float64 f => if f.isFinite then .real f else .null
  | v => .str v.text

end Value

end PathQuery
