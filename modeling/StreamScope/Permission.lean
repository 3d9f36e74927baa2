import StreamScope.Stream

/-!
What an access may do with a stream and the streams below it. Only the first
three levels let events be read; the other two carve a hole in a wider grant.
-/

namespace StreamScope

inductive PermissionLevel where
  | read
  | contribute
  | manage
  /-- Events may be added but never read back. -/
  | createOnly
  | denied
deriving DecidableEq, Repr

namespace PermissionLevel

def canRead : PermissionLevel → Bool
  | .read => true
  | .contribute => true
  | .manage => true
  | .createOnly => false
  | .denied => false

/-- Whether streams at this level must stay out of every read. -/
def forbidsRead : PermissionLevel → Bool
  | .createOnly => true
  | .denied => true
  | _ => false

def name : PermissionLevel → String
  | .read => "read"
  | .contribute => "contribute"
  | .manage => "manage"
  | .createOnly => "create-only"
  | .denied => "none"

def ofName? (text : String) : Option PermissionLevel :=
  [read, contribute, manage, createOnly, denied].find? fun level => level.name = text

def unknownMessage (text : String) : String := "invalid permission level: " ++ text

def toJson (level : PermissionLevel) : Json := .string level.name

def ofJson? (source : Json.Source) (j : Json) : Option PermissionLevel :=
  (j.asName? source).bind ofName?

theorem ofName?_name (level : PermissionLevel) : ofName? level.name = some level := by
  cases level <;> decide

theorem forbidsRead_eq_not_canRead (level : PermissionLevel) :
    level.forbidsRead = !level.canRead := by
  cases level <;> rfl

end PermissionLevel

/-- A grant on a stream, or on a whole store through its wildcard. The id is full: it may name
the store. -/
structure PermissionEntry where
  stream : StreamId
  level : PermissionLevel
deriving DecidableEq, Repr

namespace PermissionEntry

def toJson (e : PermissionEntry) : Json :=
  .ofFields [("streamId", e.stream.toJson), ("level", e.level.toJson)]

def ofJson? (source : Json.Source) (j : Json) : Option PermissionEntry := do
  match ← j.record? source ["streamId", "level"] with
  | [stream, level] =>
      pure {
        stream := ← Json.required StreamId.ofJson? stream
        level := ← Json.required (PermissionLevel.ofJson? source) level }
  | _ => none

end PermissionEntry
end StreamScope
