import StreamScope.Access.Grants
import StreamScope.Registry

/-!
What the caller may read. The level on a stream is that of the nearest entry on
the stream or a parent above it, and failing these the store-wide one. A store
in which the access holds nothing is not even asked. A personal access needs no
entry.
-/

namespace StreamScope

structure Caller where
  access : Access
  grants : Grants

namespace Caller

def ofAccess (k : Conventions) (access : Access) : Except AccessError Caller :=
  (Grants.ofAccess k access).map fun grants => { access, grants }

/-- What the access holds in a store. -/
def held (c : Caller) (store : StoreId) : StoreGrants := (c.grants.get store).getD {}

/-- The level that decides on a stream. A stream without known parents is its own chain. -/
def level (c : Caller) (r : Registry) (store : StoreId) (id : StreamId) :
    Lookup PermissionLevel :=
  match c.grants.get store with
  | none => .ok none
  | some g =>
      (r.ancestors store id).map fun chain =>
        ((chain.getD [id]).findSome? g.levelOf?).or g.storeWide

/-- Whether every stream of the store may be read. -/
def hasBlanketRead (c : Caller) (store : StoreId) : Bool :=
  c.access.isPersonal || ((c.held store).storeWide.map PermissionLevel.canRead).getD false

def canRead (c : Caller) (r : Registry) (store : StoreId) (id : StreamId) :
    Except LookupError Bool :=
  if c.access.isPersonal then .ok true
  else (c.level r store id).map fun level => (level.map PermissionLevel.canRead).getD false

/-- The streams on which read was granted, in grant order. -/
def readableRoots (c : Caller) (store : StoreId) : List StreamId :=
  (c.held store).entriesWhere PermissionLevel.canRead

/-- The streams that every read in the store must match as well. -/
def forced (c : Caller) (store : StoreId) : List StreamId := (c.held store).forced

/-- The streams that every read in the store must leave out. -/
def forbidden (c : Caller) (store : StoreId) : List StreamId :=
  (c.held store).entriesWhere PermissionLevel.forbidsRead

def inspect (c : Caller) : String :=
  "AccessLogic \x7b access: " ++ Text.quoteString c.access.id ++ ", stores: " ++
    toString c.grants.length ++ " \x7d"

end Caller
end StreamScope
