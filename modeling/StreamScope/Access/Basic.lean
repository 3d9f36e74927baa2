import StreamScope.Permission

/-!
An access: a credential and the grants it carries. Stream ids in it are full. A
personal access is the account owner's own and reads everything; forced streams
restrict every read through the access.
-/

namespace StreamScope

inductive AccessKind where
  | personal
  | app
  | shared
deriving DecidableEq, Repr

namespace AccessKind

def name : AccessKind → String
  | .personal => "personal"
  | .app => "app"
  | .shared => "shared"

def ofName? (text : String) : Option AccessKind :=
  [personal, app, shared].find? fun kind => kind.name = text

def ofJson? (source : Json.Source) (j : Json) : Option AccessKind :=
  (j.asName? source).bind ofName?

end AccessKind

structure Access where
  id : String
  kind : AccessKind := .app
  permissions : List PermissionEntry := []
  forced : List StreamId := []
deriving DecidableEq, Repr

namespace Access

def isPersonal (a : Access) : Bool := a.kind = .personal

def toJson (a : Access) : Json :=
  .ofFields [("id", .string a.id), ("kind", .string a.kind.name),
    ("permissions", .array (a.permissions.map PermissionEntry.toJson)),
    ("forcedStreams", StreamId.listToJson a.forced)]

def ofJson? (source : Json.Source) (j : Json) : Option Access := do
  match ← j.record? source ["id", "kind", "permissions", "forcedStreams"] with
  | [id, kind, permissions, forced] =>
      pure {
        id := ← Json.required Json.asString? id
        kind := ← Json.defaulted .app (AccessKind.ofJson? source) kind
        permissions := ←
          Json.defaulted [] (Json.asList? (PermissionEntry.ofJson? source)) permissions
        forced := ← Json.defaulted [] StreamId.listOfJson? forced }
  | _ => none

end Access
end StreamScope
