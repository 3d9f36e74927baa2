import StreamScope.Access.Caller
import StreamScope.Query.Clause
import StreamScope.Resolver.Error

/-!
Clauses that the caller is entitled to. A wildcard stays where the caller reads
the whole store and becomes the list of the caller's readable roots elsewhere.
Every id that the request includes must exist and be readable; of all clauses
together the first forbidden id is reported, and failing one all unknown ids.
The access's own forced and forbidden streams are added unchecked.
-/

namespace StreamScope.Permitted

/-- An included id that fails its check, as a full id. -/
inductive Offence where
  | unknown (id : StreamId)
  | forbidden (id : StreamId)
deriving DecidableEq, Repr

namespace Offence

def unknown? : Offence → Option StreamId
  | .unknown id => some id
  | .forbidden _ => none

def forbidden? : Offence → Option StreamId
  | .unknown _ => none
  | .forbidden id => some id

end Offence

/-- Appends the ids that are not there yet. -/
def appendNew (ids more : List StreamId) : List StreamId :=
  more.foldl (fun ids id => if id ∈ ids then ids else ids ++ [id]) ids

/-- The streams on which the caller was granted read and that still exist. -/
def existingRoots (caller : Caller) (r : Registry) (store : StoreId) :
    Except ResolveError (List StreamId) := do
  let found ← (caller.readableRoots store).mapM fun id =>
    ((r.find store id).mapError .lookup).map fun stream => stream.map fun _ => id
  pure (found.filterMap fun id => id)

/-- The included part of a clause, without a wildcard that the caller has no right to. -/
def entitled (caller : Caller) (r : Registry) (c : QueryClause) :
    Except ResolveError QueryClause :=
  if c.isWildcard && !caller.hasBlanketRead c.store then
    (existingRoots caller r c.store).map fun roots => { c with any := some (.ids roots) }
  else .ok c

def check (k : Conventions) (caller : Caller) (r : Registry) (store : StoreId) (id : StreamId) :
    Except ResolveError (Option Offence) := do
  let bare := k.stripMarker id
  let full := k.fullId store bare
  match ← (r.find store bare).mapError .lookup with
  | none => pure (some (.unknown full))
  | some _ =>
      let readable ← (caller.canRead r store bare).mapError .permission
      pure (if readable then none else some (.forbidden full))

/-- Adds the streams that the access forces and those that it forbids. -/
def restrict (caller : Caller) (c : QueryClause) : QueryClause :=
  { c with
    forced := appendNew c.forced ((caller.forced c.store).filter fun id => id ∉ c.all)
    not := appendNew c.not (caller.forbidden c.store) }

def permit (k : Conventions) (caller : Caller) (r : Registry) (c : QueryClause) :
    Except ResolveError (QueryClause × List Offence) := do
  let c ← entitled caller r c
  let checked ← (c.anyIds ++ c.all).mapM (check k caller r c.store)
  pure (restrict caller c, checked.filterMap fun offence => offence)

/-- What the offences of a request amount to. -/
def verdict (offences : List Offence) : Except ResolveError Unit :=
  match offences.findSome? Offence.forbidden? with
  | some id => .error (.forbidden id)
  | none =>
      match (offences.filterMap Offence.unknown?).eraseDups with
      | [] => .ok ()
      | ids => .error (.unknownStreams ids)

end Permitted

open Permitted in
def resolvePermissions (k : Conventions) (caller : Caller) (r : Registry)
    (clauses : List QueryClause) : Except ResolveError (List QueryClause) := do
  let permitted ← clauses.mapM (permit k caller r)
  verdict (permitted.flatMap Prod.snd)
  pure (permitted.map Prod.fst)

end StreamScope
