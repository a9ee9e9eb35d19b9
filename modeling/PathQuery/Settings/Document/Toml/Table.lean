import PathQuery.Settings.Document.Toml.Scalar

/-!
# Table — the tables of a TOML document while it is read

A table comes to be in one of four ways: a header opens it, the path of a header passes through it,
a key with points passes through it, or it stands between braces. What one of them has closed no
other may reopen: `openTable`, `openItem` and `assign` say which changes a table admits.

`Table.toDocument?` gives the finished document. A table whose first field has the name
`momentName` stands for the date or the time in that field.
-/

namespace PathQuery.Document.Toml

open PathQuery.Text

/-- How a table came to be. -/
inductive Origin where
  | header
  /-- a header names a table inside it -/
  | path
  /-- a key with points assigns to it -/
  | key
  /-- it stands between braces -/
  | braces
deriving DecidableEq, Repr

/-- What stands under a name. -/
inductive Entry where
  /-- a text, a number or a truth value -/
  | scalar (v : Setting)
  /-- the text of a date, a time or both -/
  | moment (cs : List Char)
  | list (items : List Entry)
  | table (origin : Origin) (fields : List (String × Entry))
  /-- tables under headers of one name, the last one first -/
  | tables (items : List (List (String × Entry)))

/-- The fields of a table in their order. -/
abbrev Table := Fields Entry

namespace Table

/-- Assigns a value to a key. All but the last part of the key have to lead through tables that keys
with points made or into the last of a list of tables; `assignable` says whether the table at hand
takes the value itself. No name is assigned twice. -/
def assign (v : Entry) (assignable : Bool) : List String → Table → Option Table
  | [], _ => none
  | [name], t =>
    if assignable && (t.get? name).isNone then some (t.insert name v) else none
  | name :: names, t =>
    match t.get? name with
    | none => (assign v true names []).map fun inner => t.insert name (.table .key inner)
    | some (.table .key inner) =>
      (assign v true names inner).map fun inner => t.insert name (.table .key inner)
    -- a table that only the path of a header made does not take the value, one inside it may
    | some (.table .path inner) =>
      (assign v false names inner).map fun inner => t.insert name (.table .path inner)
    | some (.tables (last :: items)) =>
      (assign v false names last).map fun last => t.insert name (.tables (last :: items))
    | some _ => none

/-- Changes the table that the path of a header leads to. Tables that are missing on the way are
made. -/
def within (change : Table → Option Table) : List String → Table → Option Table
  | [], t => change t
  | name :: names, t =>
    match t.get? name with
    | none => (within change names []).map fun inner => t.insert name (.table .path inner)
    | some (.table .braces _) => none
    | some (.table origin inner) =>
      (within change names inner).map fun inner => t.insert name (.table origin inner)
    | some (.tables (last :: items)) =>
      (within change names last).map fun last => t.insert name (.tables (last :: items))
    | some _ => none

/-- Opens a table, which then is the last field. One that is there keeps its fields; only the path
of a header may have made it. -/
def openTable (name : String) (t : Table) : Option Table :=
  match t.get? name with
  | none => some (t.insert name (.table .header []))
  | some (.table .path inner) => some ((t.erase name).insert name (.table .header inner))
  | some _ => none

/-- Opens a table behind the last one of a list of tables. -/
def openItem (name : String) (t : Table) : Option Table :=
  match t.get? name with
  | none => some (t.insert name (.tables [[]]))
  | some (.tables items) => some (t.insert name (.tables ([] :: items)))
  | some _ => none

end Table

/-! ## Finished documents -/

/-- The name of a field that stands for a date or a time. -/
def momentName : String :=
  "$__toml_private_datetime"

mutual

/-- The value of an entry in the finished document. -/
def Entry.setting? : Entry → Option Setting
  | .scalar v => some v
  | .moment cs => some (.text (String.ofList cs))
  | .list items => if Entry.allSettings items then some .list else none
  | .table _ fields => Entry.ofFields? fields
  | .tables items => if Entry.allTables items then some .list else none

/-- Whether all items of a list have values. -/
def Entry.allSettings : List Entry → Bool
  | [] => true
  | e :: items => e.setting?.isSome && Entry.allSettings items

/-- Whether all tables of a list have values. -/
def Entry.allTables : List (List (String × Entry)) → Bool
  | [] => true
  | fields :: items => (Entry.ofFields? fields).isSome && Entry.allTables items

/-- The value of a table. Behind a date or a time no other field is read. -/
def Entry.ofFields? : List (String × Entry) → Option Setting
  | [] => some (.table [])
  | (name, e) :: fs =>
    if name = momentName then
      match e with
      | .scalar (.text s) =>
        (quotedMoment? s.toList).map fun cs => .text (String.ofList cs)
      | _ => none
    else do
      let v ← e.setting?
      return .table ((name, v) :: (← Entry.settings? fs))

/-- The values of fields. -/
def Entry.settings? : List (String × Entry) → Option (List (String × Setting))
  | [] => some []
  | (name, e) :: fs => do
    let v ← e.setting?
    return (name, v) :: (← Entry.settings? fs)

end

/-- The finished document, which is a table. -/
def Table.toDocument? (t : Table) : Option Document :=
  match Entry.ofFields? t with
  | some (.table fields) => some fields
  | _ => none

end PathQuery.Document.Toml
