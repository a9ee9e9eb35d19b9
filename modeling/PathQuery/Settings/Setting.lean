import PathQuery.Binary64.Numeral
import PathQuery.Fields
import PathQuery.Plan.Basic
import PathQuery.Text.Escape
import PathQuery.Width

/-!
# Setting — values in documents and variables, and how fields read them

A text field takes the display text of numbers and truth values. A truth field takes numbers and a
few words. A join kind takes a name.
-/

namespace PathQuery

open PathQuery.Text

/-- A value in a document or a variable. The items of a list are of no interest. -/
inductive Setting where
  | null
  | flag (b : Bool)
  | whole (i : Int)
  | real (f : Binary64)
  | text (s : String)
  | list
  | table (fields : List (String × Setting))

/-- The fields of a document in their order. -/
abbrev Document := Fields Setting

namespace Setting

/-- The integer that a text denotes, if it has sixty-four bits. -/
def whole? (s : String) : Option Int :=
  (integer? s.toList).filter fun i => decide (IsInt64 i)

/-- What the text of a variable stands for: a truth value in any case, else an integer, else a
number, else the text itself. -/
def ofVariable (s : String) : Setting :=
  if lower s = "true" then .flag true
  else if lower s = "false" then .flag false
  else
    match whole? s, Binary64.read? s.toList with
    | some i, _ => .whole i
    | none, some f => .real f
    | none, none => .text s

/-- The value as text. -/
def asText? : Setting → Option String
  | .flag true => some "true"
  | .flag false => some "false"
  | .whole i => some (integerText i)
  | .real f => some (String.ofList f.display)
  | .text s => some s
  | _ => none

/-- Words for true and for false. -/
def flagWord? (s : String) : Option Bool :=
  if lower s ∈ ["1", "true", "on", "yes"] then some true
  else if lower s ∈ ["0", "false", "off", "no"] then some false
  else none

/-- The value as a truth value; of the numbers only zero is false. -/
def asFlag? : Setting → Option Bool
  | .flag b => some b
  | .whole i => some (i != 0)
  | .real f => some f.isNonZero
  | .text s => flagWord? s
  | _ => none

def joinKindNamed? (s : String) : Option JoinKind :=
  JoinKind.all.find? fun k => k.name == lower s

/-- The value as a join kind: its name in any case, or a table with that one field. -/
def asJoinKind? : Setting → Option JoinKind
  | .text s => joinKindNamed? s
  | .table [(name, _)] => joinKindNamed? name
  | _ => none

end Setting

end PathQuery
