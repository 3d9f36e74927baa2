import StreamScope.Access.Basic
import StreamScope.Query.Conventions

/-!
The grants of an access, sorted by store. Each entry and each forced stream is
split off its store; no two entries name the same stream, none is marked or
empty, and no forced stream is the wildcard.
-/

namespace StreamScope

inductive EntryFault where
  | empty
  | marked
  | forcedWildcard
deriving DecidableEq, Repr

namespace EntryFault

def message : EntryFault → String
  | .empty => "empty stream id"
  | .marked => "permission ids cannot carry the no-expand marker"
  | .forcedWildcard => "a forced stream cannot be the wildcard"

end EntryFault

inductive AccessError where
  | invalidEntry (id : StreamId) (fault : EntryFault)
  | duplicateEntry (id : StreamId)
deriving DecidableEq, Repr

namespace AccessError

def message : AccessError → String
  | .invalidEntry id fault => "invalid permission entry " ++ id.text ++ ": " ++ fault.message
  | .duplicateEntry id => "duplicate permission entry for stream " ++ id.text

end AccessError

/-- What an access holds in one store. The entries stand in the order in which they were
granted. -/
structure StoreGrants where
  storeWide : Option PermissionLevel := none
  entries : List (StreamId × PermissionLevel) := []
  forced : List StreamId := []
deriving DecidableEq, Repr

namespace StoreGrants

/-- The level of the entry on the stream itself. -/
def levelOf? (g : StoreGrants) (id : StreamId) : Option PermissionLevel :=
  (g.entries.find? fun entry => entry.1 = id).map Prod.snd

/-- Adds an entry unless its stream, or the whole store, has one already. -/
def grant? (g : StoreGrants) (id : StreamId) (level : PermissionLevel) : Option StoreGrants :=
  if id = .wildcard then
    if g.storeWide.isSome then none else some { g with storeWide := some level }
  else if (g.levelOf? id).isSome then none
  else some { g with entries := g.entries ++ [(id, level)] }

def addForced (g : StoreGrants) (id : StreamId) : StoreGrants :=
  { g with forced := g.forced ++ [id] }

/-- The streams whose entries satisfy `p`, in grant order. -/
def entriesWhere (g : StoreGrants) (p : PermissionLevel → Bool) : List StreamId :=
  (g.entries.filter fun entry => p entry.2).map Prod.fst

end StoreGrants

/-- The grants per store, for the stores that have any. -/
abbrev Grants := List (StoreId × StoreGrants)

namespace Grants

def get (grants : Grants) (store : StoreId) : Option StoreGrants :=
  (grants.find? fun entry => entry.1 = store).map Prod.snd

/-- Sets what is held in one store. -/
def set (store : StoreId) (held : StoreGrants) : Grants → Grants
  | [] => [(store, held)]
  | (s, g) :: rest => if s = store then (s, held) :: rest else (s, g) :: set store held rest

/-- The store and the local id of an entry. -/
def splitEntry (k : Conventions) (full : StreamId) : Except AccessError (StoreId × StreamId) :=
  if full.text.toList.isEmpty then .error (.invalidEntry full .empty)
  else if k.isNoExpand full then .error (.invalidEntry full .marked)
  else
    let (store, id) := k.split full.text
    if id.text.toList.isEmpty then .error (.invalidEntry full .empty) else .ok (store, id)

def addPermission (k : Conventions) (grants : Grants) (entry : PermissionEntry) :
    Except AccessError Grants := do
  let (store, id) ← splitEntry k entry.stream
  match ((grants.get store).getD {}).grant? id entry.level with
  | some held => pure (grants.set store held)
  | none => throw (.duplicateEntry entry.stream)

def addForced (k : Conventions) (grants : Grants) (full : StreamId) :
    Except AccessError Grants := do
  let (store, id) ← splitEntry k full
  if id = .wildcard then throw (.invalidEntry full .forcedWildcard)
  pure (grants.set store (((grants.get store).getD {}).addForced id))

/-- The grants of an access: its permissions, then its forced streams. -/
def ofAccess (k : Conventions) (a : Access) : Except AccessError Grants := do
  let grants ← a.permissions.foldlM (addPermission k) []
  a.forced.foldlM (addForced k) grants

end Grants
end StreamScope
