import PathQuery.Text.Quoted
import PathQuery.Value.Basic

/-!
# Sql — a value as it stands in a statement
-/

namespace PathQuery.Value

open PathQuery.Text

/-- Null, truth values and numbers stand bare, all other texts between quotes. -/
def sql : Value → String
  | .null => "NULL"
  | .bool b => (Value.bool b).text
  | .int32 i => (Value.int32 i).text
  | .int64 i => (Value.int64 i).text
  | .float64 f => (Value.float64 f).text
  | .decimal numeral => numeral
  | v => String.ofList (quoted v.text.toList)

end PathQuery.Value
