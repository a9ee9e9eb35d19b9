/-!
# Scalar — the types of plain columns
-/

namespace PathQuery

/-- The type of a plain column. -/
inductive Scalar where
  | bool
  | int32
  | int64
  | float64
  | decimal
  | string
  | date
  | dateTime
  | uuid
deriving DecidableEq, Repr

namespace Scalar

def isNumeric : Scalar → Bool
  | .int32 | .int64 | .float64 | .decimal => true
  | _ => false

def isTemporal : Scalar → Bool
  | .date | .dateTime => true
  | _ => false

/-- The name in messages. -/
def text : Scalar → String
  | .bool => "bool"
  | .int32 => "int32"
  | .int64 => "int64"
  | .float64 => "float64"
  | .decimal => "decimal"
  | .string => "string"
  | .date => "date"
  | .dateTime => "datetime"
  | .uuid => "uuid"

/-- The name in schema documents. -/
def name : Scalar → String
  | .bool => "Bool"
  | .int32 => "Int32"
  | .int64 => "Int64"
  | .float64 => "Float64"
  | .decimal => "Decimal"
  | .string => "String"
  | .date => "Date"
  | .dateTime => "DateTime"
  | .uuid => "Uuid"

/-- All nine types, in the order of their declaration. -/
def all : List Scalar :=
  [.bool, .int32, .int64, .float64, .decimal, .string, .date, .dateTime, .uuid]

/-- The type of that name in a schema document. -/
def ofName? (s : String) : Option Scalar :=
  all.find? fun t => t.name == s

end Scalar

end PathQuery
