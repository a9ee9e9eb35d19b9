import PathQuery.Json
import PathQuery.Text.Numeral

/-!
# Page — how many rows are skipped and taken
-/

namespace PathQuery

open PathQuery.Text

/-- A limit and an offset, each of which may be unset. -/
structure Page where
  limit : Option Nat
  offset : Option Nat
deriving DecidableEq

namespace Page

def unset : Page :=
  ⟨none, none⟩

/-- The clause at the end of a statement, with a space before each part. -/
def sql (p : Page) : String :=
  (match p.limit with
    | none => ""
    | some n => " LIMIT " ++ naturalText n) ++
  (match p.offset with
    | none => ""
    | some n => " OFFSET " ++ naturalText n)

def json (p : Page) : Json :=
  .obj [("limit", .ofOption (fun n => .int (n : Nat)) p.limit),
    ("offset", .ofOption (fun n => .int (n : Nat)) p.offset)]

/-- The rows of a page: those after the offset, as many as the limit allows. -/
def rows {α : Type} (p : Page) (xs : List α) : List α :=
  let rest := xs.drop (p.offset.getD 0)
  match p.limit with
  | none => rest
  | some n => rest.take n

end Page

end PathQuery
