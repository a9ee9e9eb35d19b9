import PathQuery.Binary64.Integer
import PathQuery.Text.Blank
import PathQuery.Value.Basic
import PathQuery.Width

/-!
# Convert — a value read as another scalar type

Null stays null in every type. Otherwise the value is read as the target type, or refused. Numbers,
dates and identifiers in text are read, numbers after blanks at both ends are dropped.
-/

namespace PathQuery

open PathQuery.Text

namespace Value

/-- The words `true` and `false` are read as they stand. -/
def asBool? : Value → Option Bool
  | .bool b => some b
  | .string "true" => some true
  | .string "false" => some false
  | _ => none

/-- An integer of sixty-four bits as one of thirty-two bits. -/
def narrow? (i : Int64) : Option Int32 :=
  int32? i.toInt

/-- Integers of thirty-two bits are widened, numbers are guarded, and numerals are read. -/
def asInt64? : Value → Option Int64
  | .int32 i => some i.toInt64
  | .int64 i => some i
  | .float64 f => f.whole?
  | .string s => (integer? (trim s.toList)).bind int64?
  | _ => none

/-- Integers of sixty-four bits are narrowed, among them those that numbers become; numerals are
read. -/
def asInt32? : Value → Option Int32
  | .int32 i => some i
  | .int64 i => narrow? i
  | .float64 f => f.whole?.bind narrow?
  | .string s => (integer? (trim s.toList)).bind int32?
  | _ => none

/-- The double-precision number nearest to a number or a numeral. -/
def asFloat64? : Value → Option Binary64
  | .int32 i => some (.ofInt i.toInt)
  | .int64 i => some (.ofInt i.toInt)
  | .float64 f => some f
  | .decimal numeral => Binary64.read? numeral.toList
  | .string s => Binary64.read? (trim s.toList)
  | _ => none

/-- Text that reads as a number, without the blanks at its ends. -/
def numeral? (s : String) : Option String :=
  let cs := trim s.toList
  if (Binary64.read? cs).isSome then some (String.ofList cs) else none

/-- The numeral of a number. -/
def asDecimal? : Value → Option String
  | .int32 i => some (integerText i.toInt)
  | .int64 i => some (integerText i.toInt)
  | .float64 f => if f.isFinite then some (String.ofList f.display) else none
  | .decimal numeral => some numeral
  | .string s => numeral? s
  | _ => none

/-- A time of day is only dropped at midnight. -/
def asDate? : Value → Option Date
  | .date d => some d
  | .dateTime dt => if dt.time = .midnight then some dt.date else none
  | .string s => Date.read? s.toList
  | _ => none

/-- A day without a time stands for its midnight. -/
def asDateTime? : Value → Option DateTime
  | .date d => some d.atMidnight
  | .dateTime dt => some dt
  | .string s => DateTime.read? s.toList
  | _ => none

def asUuid? : Value → Option Uuid
  | .uuid u => some u
  | .string s => Uuid.read? s.toList
  | _ => none

/-- Reads a value that is not null as the target type. -/
def readAs? (v : Value) : Scalar → Option Value
  | .bool => v.asBool?.map .bool
  | .int32 => v.asInt32?.map .int32
  | .int64 => v.asInt64?.map .int64
  | .float64 => v.asFloat64?.map .float64
  | .decimal => v.asDecimal?.map .decimal
  | .string => some (.string v.text)
  | .date => v.asDate?.map .date
  | .dateTime => v.asDateTime?.map .dateTime
  | .uuid => v.asUuid?.map .uuid

/-- The value as the target type; null stays null. -/
def convert (v : Value) (t : Scalar) : Option Value :=
  if v.isNull then some .null else v.readAs? t

end Value

end PathQuery
