import PathQuery.Settings.Document.Json
import PathQuery.Settings.Document.Toml
import PathQuery.Settings.Document.Yaml
import PathQuery.Settings.Layer

/-!
# Load — settings from a document and the environment

A document lies over the defaults and variables over the document. What results is validated.
-/

namespace PathQuery

/-- What stands under a path. -/
inductive Found where
  | nothing
  | directory
  | file (content : String)

/-- A view of the file system. -/
abbrev Files := String → Found

/-- Settings that were loaded, and the document they came from. -/
structure Loaded where
  settings : Settings
  source : Option String
deriving DecidableEq

namespace Document

/-- What stands behind the last point of a file name that does not begin with it. -/
def extension? (path : String) : Option String :=
  let name := (path.toList.reverse.takeWhile (· != '/')).reverse
  match name.reverse.dropWhile (· != '.') with
  | [] => none
  | [_] => none
  | _ => some (String.ofList (name.reverse.takeWhile (· != '.')).reverse)

/-- Reads a document in the format that the extension of its path names. -/
def ofFile? (path content : String) : Option Document :=
  match extension? path with
  | some "json" => ofJson? content
  | some "toml" => ofToml? content
  | some "yaml" | some "yml" => ofYaml? content
  | _ => none

end Document

namespace Settings

/-- The document under a path. -/
def document (files : Files) (path : String) : Except SettingsError Document :=
  match files path with
  | .nothing => .error (.unreadable path "not found")
  | .directory => .error (.malformed path "not a file")
  | .file content =>
    match Document.ofFile? path content with
    | some doc => .ok doc
    | none => .error (.malformed path "not a document")

/-- Loads the layers: the defaults, a document if a path is given, and variables. -/
def loadLayers (files : Files) (path : Option String) (env : Environment) :
    Except SettingsError Loaded := do
  let doc ← match path with
    | none => .ok []
    | some path => document files path
  let layers := (standard.toDocument.layer doc).layer env.document
  let settings ← ofDocument (path.getD "environment") layers
  settings.validate
  return ⟨settings, path⟩

/-- Loads the document that a variable names, if it is set, and the variables. -/
def load (files : Files) (env : Environment) : Except SettingsError Loaded :=
  loadLayers files (env.get? Environment.fileVariable) env

/-- Loads a document and the variables. -/
def loadFile (files : Files) (path : String) (env : Environment) : Except SettingsError Loaded :=
  match files path with
  | .file _ => loadLayers files (some path) env
  | _ => .error (.unreadable path "not a regular file")

/-- Loads a document without the variables. -/
def loadFileOnly (files : Files) (path : String) : Except SettingsError Loaded :=
  loadLayers files (some path) []

/-- Takes settings as they are, once they are valid. -/
def accept (s : Settings) : Except SettingsError Loaded := do
  s.validate
  return ⟨s, none⟩

end Settings

end PathQuery
