import PathQuery.Settings.Document.Yaml.Node

/-!
# Yaml — documents in YAML

The one document of a text is a mapping. Fields whose keys are neither texts nor integers are of no
interest. A text without a document has no fields.
-/

namespace PathQuery.Document

open PathQuery.Text

namespace Yaml

mutual

/-- The value that a node stands for. A number that is not finite has none unless it is written as a
numeral. -/
def Node.setting? : Node → Option Setting
  | .bad | .null => some .null
  | .flag b => some (.flag b)
  | .whole i => some (.whole i)
  | .real cs => (Binary64.read? cs).map .real
  | .text cs => some (.text (String.ofList cs))
  | .sequence items => if Node.allSettings items then some .list else none
  | .mapping fields => (Node.fields? fields).map .table

/-- Whether all items stand for values. -/
def Node.allSettings : List Node → Bool
  | [] => true
  | n :: items => n.setting?.isSome && Node.allSettings items

/-- The fields of a mapping with their names. -/
def Node.fields? : List (Node × Node) → Option (List (String × Setting))
  | [] => some []
  | (.text name, v) :: fs => do
    let v ← v.setting?
    return (String.ofList name, v) :: (← Node.fields? fs)
  | (.whole i, v) :: fs => do
    let v ← v.setting?
    return (integerText i, v) :: (← Node.fields? fs)
  | _ :: fs => Node.fields? fs

end

end Yaml

/-- The fields of a document in YAML. -/
def ofYaml? (text : String) : Option Document := do
  match ← Yaml.Content.ofTokens? (← Yaml.tokens? text) with
  | .nothing => some []
  | .document n =>
    match ← n.setting? with
    | .table fields => some fields
    | _ => none

end PathQuery.Document
