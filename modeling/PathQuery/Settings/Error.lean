/-!
# Error — why settings could not be used
-/

namespace PathQuery

/-- Why settings could not be loaded. -/
inductive SettingsError where
  | unreadable (path reason : String)
  | malformed (source reason : String)
  | invalid (field value context : String)
deriving DecidableEq

def SettingsError.message : SettingsError → String
  | .unreadable path reason => s!"Failed to read configuration file '{path}': {reason}"
  | .malformed source reason => s!"Parse Error for {source}: {reason}"
  | .invalid field value context => s!"Invalid value '{value}' for field '{field}': {context}"

end PathQuery
