import PathQuery.Plan.Basic

/-!
# Settings — aliases, join kind and logging

The root alias and what generated aliases begin with have to be identifiers, and no generated alias
may be the root alias.
-/

namespace PathQuery

/-- What a compilation can be told beforehand. -/
structure Settings where
  rootAlias : String
  /-- generated aliases are this with a number from 1 on behind it -/
  stem : String
  joinKind : JoinKind
  /-- whether the statement of every plan is reported -/
  logSql : Bool
deriving DecidableEq

/-- A letter or an underscore. -/
def isIdentifierStart (c : Char) : Bool :=
  c.isAlpha || c == '_'

/-- A letter, a digit or an underscore. -/
def isIdentifierChar (c : Char) : Bool :=
  c.isAlphanum || c == '_'

/-- A letter or an underscore, then letters, digits and underscores, all of them ASCII. -/
def isIdentifier (s : String) : Bool :=
  match s.toList with
  | [] => false
  | c :: cs => isIdentifierStart c && cs.all isIdentifierChar

/-- Drops `start` from the front of a list that begins with it. -/
def afterStart? : List Char → List Char → Option (List Char)
  | [], cs => some cs
  | _ :: _, [] => none
  | d :: start, c :: cs => if d = c then afterStart? start cs else none

/-- Whether the text is the stem with digits behind it. -/
def isGeneratedFrom (stem s : String) : Bool :=
  match afterStart? stem.toList s.toList with
  | none => false
  | some rest => !rest.isEmpty && rest.all Char.isDigit

namespace Settings

def standard : Settings :=
  ⟨"this", "alias_", .inner, false⟩

/-- Refuses aliases that cannot qualify a property or that can clash. -/
def validate (s : Settings) : Except SettingsError Unit :=
  if !isIdentifier s.rootAlias then
    .error (.invalid "root_alias" s.rootAlias "must be a non-empty identifier")
  else if !isIdentifier s.stem then
    .error (.invalid "alias_prefix" s.stem "must be a non-empty identifier")
  else if isGeneratedFrom s.stem s.rootAlias then
    .error (.invalid "root_alias" s.rootAlias s!"collides with generated aliases '{s.stem}N'")
  else
    .ok ()

end Settings

end PathQuery
