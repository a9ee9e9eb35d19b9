import PathQuery.Settings.Document.Toml.Table
import PathQuery.Settings.Document.Toml.Text

/-!
# Toml — documents in TOML

One assignment or table header a line, comments behind `#`. An assignment goes to the table of the
header above it.
-/

namespace PathQuery.Document

namespace Toml

/-! ## Values -/

mutual

/-- Reads a value; `depth` bounds the nesting of lists and tables. -/
def readValue : Nat → Nat → List Char → Option (Entry × List Char)
  | 0, _, _ => none
  | fuel + 1, depth, cs =>
    match cs with
    | '[' :: cs =>
      if depth = 0 then none
      else (readItems fuel (depth - 1) cs).map fun (items, rest) => (.list items, rest)
    | '\x7b' :: cs =>
      if depth = 0 then none
      else
        match skip cs with
        | '\x7d' :: rest => some (.table .braces [], rest)
        | cs => (readFields fuel (depth - 1) [] cs).map fun (t, rest) => (.table .braces t, rest)
    | '"' :: _ | '\'' :: _ => (readText cs).map fun (s, rest) => (.scalar (.text s), rest)
    | cs =>
      match readMoment cs with
      | some (text, rest) => some (.moment text, rest)
      | none => (readWord cs).map fun (v, rest) => (.scalar v, rest)

/-- Reads the items of a list and the bracket after them; a comma may stand behind the last. -/
def readItems : Nat → Nat → List Char → Option (List Entry × List Char)
  | 0, _, _ => none
  | fuel + 1, depth, cs =>
    match skipLines (cs.length + 1) cs with
    | ']' :: rest => some ([], rest)
    | cs => do
      let (item, cs) ← readValue fuel depth cs
      match skipLines (cs.length + 1) cs with
      | ']' :: rest => return ([item], rest)
      | ',' :: cs =>
        let (items, rest) ← readItems fuel depth cs
        return (item :: items, rest)
      | _ => none

/-- Reads the fields of a table on one line and the brace after them. -/
def readFields : Nat → Nat → Table → List Char → Option (Table × List Char)
  | 0, _, _, _ => none
  | fuel + 1, depth, t, cs => do
    let (key, cs) ← readKey cs
    let cs ← expect '=' cs
    let (v, cs) ← readValue fuel depth (skip cs)
    let t ← t.assign v true key
    match skip cs with
    | '\x7d' :: rest => some (t, rest)
    | ',' :: cs => readFields fuel depth t cs
    | _ => none

end

/-! ## Lines -/

/-- The tables read so far, and the path of the one that assignments go to. -/
structure State where
  root : Table
  path : List String

/-- Opens what a header names with the last part of its key. -/
def State.openWith (s : State) (change : String → Table → Option Table) (key : List String) :
    Option State :=
  match key.getLast? with
  | none => none
  | some name => (s.root.within (change name) key.dropLast).map fun root => ⟨root, key⟩

/-- Assigns a value in the table that is open. -/
def State.assign (s : State) (key : List String) (v : Entry) : Option State :=
  (s.root.within (fun t => t.assign v true key) s.path).map fun root => { s with root := root }

/-- Reads what stands between the brackets of a header and the rest of its line. -/
def readHeader (closing : List Char) (cs : List Char) : Option (List String × List Char) := do
  let (key, cs) ← readKey cs
  let cs ← closing.foldlM (fun cs c => expect c cs) cs
  return (key, ← readRest cs)

/-- Reads a line that begins with neither a blank nor the end of the document. -/
def readLine (s : State) (cs : List Char) : Option (State × List Char) :=
  match cs with
  | '[' :: '[' :: cs => do
    let (key, rest) ← readHeader [']', ']'] cs
    return (← s.openWith (fun name t => t.openItem name) key, rest)
  | '[' :: cs => do
    let (key, rest) ← readHeader [']'] cs
    return (← s.openWith (fun name t => t.openTable name) key, rest)
  | '#' :: _ | '\n' :: _ | '\r' :: _ => (readRest cs).map fun rest => (s, rest)
  | cs => do
    let (key, cs) ← readKey cs
    let cs ← expect '=' cs
    let (v, cs) ← readValue (2 * cs.length + 2) (depthLimit - 1) (skip cs)
    return (← s.assign key v, ← readRest cs)

/-- Reads lines up to the end of the document; `fuel` bounds their number. -/
def readDocument : Nat → State → List Char → Option Document
  | 0, _, _ => none
  | fuel + 1, s, cs =>
    match skip cs with
    | [] => s.root.toDocument?
    | cs => do
      let (s, rest) ← readLine s cs
      readDocument fuel s rest

/-- A byte order mark in front is no part of the document. -/
def dropMark : List Char → List Char
  | '\ufeff' :: cs => cs
  | cs => cs

end Toml

/-- The fields of a document in TOML. -/
def ofToml? (text : String) : Option Document :=
  let cs := Toml.dropMark text.toList
  Toml.readDocument (cs.length + 1) ⟨[], []⟩ cs

end PathQuery.Document
