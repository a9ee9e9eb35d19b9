import PathQuery.Settings.Basic
import PathQuery.Settings.KeyPath

/-!
# Layer — settings put together from defaults, a document and variables

Every layer is a document that lies over those before it. The four fields are read from what
results; other fields are of no interest.
-/

namespace PathQuery

open PathQuery.Text

/-- The fields of settings. -/
inductive SettingKey where
  | rootAlias
  | stem
  | joinKind
  | logSql
deriving DecidableEq, Repr

/-- The name of a field in documents and variables. -/
def SettingKey.name : SettingKey → String
  | .rootAlias => "root_alias"
  | .stem => "alias_prefix"
  | .joinKind => "default_join_kind"
  | .logSql => "log_compiled_sql"

namespace Settings

/-- The document that sets all fields. -/
def toDocument (s : Settings) : Document :=
  [(SettingKey.rootAlias.name, .text s.rootAlias), (SettingKey.stem.name, .text s.stem),
    (SettingKey.joinKind.name, .text s.joinKind.name), (SettingKey.logSql.name, .flag s.logSql)]

/-- Reads a field of a document, or says that it has no such reading. -/
def readField {α : Type} (source : String) (doc : Document) (key : SettingKey)
    (read : Setting → Option α) : Except SettingsError α :=
  match (doc.get? key.name).bind read with
  | some a => .ok a
  | none => .error (.malformed source s!"field {key.name} has another type")

/-- Reads all fields of a document. -/
def ofDocument (source : String) (doc : Document) : Except SettingsError Settings := do
  let rootAlias ← readField source doc .rootAlias Setting.asText?
  let stem ← readField source doc .stem Setting.asText?
  let joinKind ← readField source doc .joinKind Setting.asJoinKind?
  let logSql ← readField source doc .logSql Setting.asFlag?
  return ⟨rootAlias, stem, joinKind, logSql⟩

end Settings

/-! ## Variables -/

/-- The variables of the environment: names and texts. -/
abbrev Environment := List (String × String)

namespace Environment

/-- What the names of override variables begin with, in any case. -/
def stem : String :=
  "fluent_criteria_"

/-- The variable that names the document to load. -/
def fileVariable : String :=
  "FLUENT_CRITERIA_CONFIG"

/-- The key that an override variable sets. -/
def key? (name : String) : Option String :=
  (afterStart? stem.toList (lower name).toList).map String.ofList

/-- The fields that variables override. -/
def document (env : Environment) : Document :=
  env.filterMap fun v => (key? v.1).map fun key => (key, Setting.ofVariable v.2)

def get? (env : Environment) (name : String) : Option String :=
  (env.find? fun v => v.1 == name).map (·.2)

end Environment

end PathQuery
