import StreamScope.Query.Conventions
import StreamScope.Query.Fault

/-!
Why a streams query, or the settings that it is read under, cannot be used. A
fault of the request is shown with the name of its parameter.
-/

namespace StreamScope

/-- Why settings cannot be used. -/
inductive SettingsFault where
  | conventions (fault : Conventions.Fault)
  | emptyDefaultQuery
  | unreadable
deriving DecidableEq, Repr

namespace SettingsFault

def message (fault : SettingsFault) : String :=
  "invalid id conventions: " ++
    match fault with
    | .conventions fault => fault.message
    | .emptyDefaultQuery => "default query must not be empty"
    | .unreadable => "TOML parse error"

end SettingsFault

inductive QueryError where
  | request (param : String) (fault : RequestFault)
  | settings (fault : SettingsFault)

namespace QueryError

/-- Whether the request is malformed. -/
def isStructure : QueryError → Bool
  | .request _ _ => true
  | .settings _ => false

def message : QueryError → String
  | .request param fault => fault.message param
  | .settings fault => fault.message

end QueryError

end StreamScope
