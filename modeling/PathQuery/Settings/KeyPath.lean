import PathQuery.Settings.Setting

/-!
# KeyPath — where a key points, and how a value is put there

A key is a name with steps behind it: a point and a name lead into a table, a number in brackets
leads into a list. A key that does not have this form is one name, whatever its characters. Names
are compared in lower case.

Putting a plain value replaces what was there. Putting a table merges it field by field, so an empty
table takes nothing away.
-/

namespace PathQuery

open PathQuery.Text

/-- A step from a value to a part of it. The items of a list are of no interest, so neither is the
place of one. -/
inductive KeyStep where
  | field (name : String)
  | item
deriving DecidableEq, Repr

/-- A name and the steps behind it. -/
structure KeyPath where
  name : String
  steps : List KeyStep
deriving DecidableEq, Repr

namespace KeyPath

/-- The characters of names: ASCII letters and digits, spaces, underscores and hyphens. -/
def isNameChar (c : Char) : Bool :=
  c.isAlphanum || c == ' ' || c == '_' || c == '-'

/-- Reads a name of one or more characters. -/
def readName (cs : List Char) : Option (List Char × List Char) :=
  match cs.takeWhile isNameChar with
  | [] => none
  | name => some (name, cs.drop name.length)

/-- Spaces and tabs are dropped. -/
def skipSpaces (cs : List Char) : List Char :=
  cs.dropWhile fun c => c == ' ' || c == '\t'

/-- Reads the place of an item and the bracket behind it: digits of an integer of sixty-four bits,
behind an optional minus sign and between optional spaces. -/
def readPlace (cs : List Char) : Option (List Char) :=
  let (negative, cs) := match skipSpaces cs with
    | '-' :: cs => (true, cs)
    | cs => (false, cs)
  let ds := cs.takeWhile Char.isDigit
  let n : Int := digitsValue ds
  if ds = [] ∨ ¬ IsInt64 (if negative then -n else n) then none
  else
    match skipSpaces (cs.drop ds.length) with
    | ']' :: rest => some rest
    | _ => none

/-- Reads the step at the front. -/
def readStep : List Char → Option (KeyStep × List Char)
  | '.' :: cs => (readName cs).map fun (name, rest) => (.field (lower (String.ofList name)), rest)
  | '[' :: cs => (readPlace cs).map fun rest => (.item, rest)
  | _ => none

/-- Reads steps up to the end of the text; `fuel` bounds their number. -/
def readSteps : Nat → List Char → Option (List KeyStep)
  | _, [] => some []
  | 0, _ => none
  | fuel + 1, cs => do
    let (step, cs) ← readStep cs
    return step :: (← readSteps fuel cs)

/-- Reads a key that has the form of a path. -/
def read? (cs : List Char) : Option KeyPath := do
  let (name, cs) ← readName cs
  let steps ← readSteps cs.length cs
  return ⟨lower (String.ofList name), steps⟩

/-- Where a key points. -/
def ofKey (key : String) : KeyPath :=
  (read? key.toList).getD ⟨lower key, []⟩

end KeyPath

namespace Setting

/-- The fields of a table; another value has none. -/
def fields : Setting → Document
  | .table doc => doc
  | _ => []

mutual

/-- What results where a value is put on an old one. -/
def onto (old : Option Setting) : Setting → Setting
  | .table [] => old.getD (.table [])
  | .table (f :: fs) => .table (merge ((old.map fields).getD []) (f :: fs))
  | v => v

/-- Puts fields into a table, one after the other. -/
def merge (base : Fields Setting) : List (String × Setting) → Fields Setting
  | [] => base
  | (name, v) :: fs =>
    let name := lower name
    merge (base.insert name (v.onto (base.get? name))) fs

end

/-- What results where a value is put at the end of steps from an old one. Each step makes its owner
a table or a list. -/
def put (v : Setting) : List KeyStep → Option Setting → Setting
  | [], old => v.onto old
  | .field name :: steps, old =>
    let base := (old.map fields).getD []
    .table (base.insert name (v.put steps (base.get? name)))
  -- whatever the item is, its owner is a list
  | .item :: _, _ => .list

end Setting

namespace Document

/-- Puts a value where a key points. -/
def put (doc : Document) (key : String) (v : Setting) : Document :=
  let path := KeyPath.ofKey key
  doc.insert path.name (v.put path.steps (doc.get? path.name))

/-- Puts all fields of a document on top, in their order. -/
def layer (doc top : Document) : Document :=
  top.foldl (fun doc f => doc.put f.1 f.2) doc

end Document

end PathQuery
