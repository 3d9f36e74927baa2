import StreamScope.Query.Validation
import StreamScope.Resolver.Config
import StreamScope.Scope.Permitted
import StreamScope.Scope.Predicate

/-!
The resolver turns the streams parameter of a request into the exact scope that
the caller may read. The stages follow one another, the first failure ends the
request, and no part of a scope is handed out with it. A resolution that waits
for a stalled store ends when its time is over.
-/

namespace StreamScope

inductive Stage where
  | normalize
  | validate
  | permissions
  | expand
  | algebra
deriving DecidableEq, Repr

namespace Stage

def name : Stage → String
  | .normalize => "normalize"
  | .validate => "validate"
  | .permissions => "permissions"
  | .expand => "expand"
  | .algebra => "algebra"

/-- The stages in the order in which they run. -/
def all : List Stage := [.normalize, .validate, .permissions, .expand, .algebra]

end Stage

structure Request where
  streams : Option Json := none
  state : StreamState := .live
  /-- Whether ids may come in their legacy spelling. -/
  legacy : Bool := false

/-- A resolver has a default query that is valid under its own conventions. -/
structure Resolver where
  config : Config
  defaults : List RawClause
  registry : Registry

namespace Resolver

def ofConfig (config : Config) (registry : Registry) : Except ResolveError Resolver := do
  let defaults ← config.defaultClauses.mapError .query
  let _ ← (StreamScope.validate config.conventions defaults).mapError fun fault =>
    .query (.request config.param fault)
  pure { config, defaults, registry }

/-- The valid clauses of a request. -/
def clauses (r : Resolver) (request : Request) : Except ResolveError (List QueryClause) := do
  let k := r.config.conventions
  let malformed (fault : RequestFault) : ResolveError := .query (.request r.config.param fault)
  let raw ← (StreamScope.normalize k r.defaults request.legacy request.streams).mapError malformed
  (StreamScope.validate k raw).mapError malformed

/-- The scope of valid clauses. -/
def scope (r : Resolver) (caller : Caller) (state : StreamState) (clauses : List QueryClause) :
    Except ResolveError ResolvedQuery := do
  let k := r.config.conventions
  let permitted ← resolvePermissions k caller r.registry clauses
  let expanded ← expandClauses { conventions := k, registry := r.registry, state } permitted
  pure (reduceClauses expanded)

/-- An error that comes from waiting for a store is the end of the time. -/
def limit (timeout : Duration) : ResolveError → ResolveError
  | .lookup .stalled => .timeout timeout
  | .permission .stalled => .timeout timeout
  | error => error

def resolve (r : Resolver) (caller : Caller) (request : Request) :
    Except ResolveError ResolvedQuery :=
  (r.clauses request >>= r.scope caller request.state).mapError (limit r.config.timeout)

/-- The query with the streams of the default store in their legacy spelling. -/
def toLegacy (r : Resolver) (q : ResolvedQuery) : ResolvedQuery :=
  let k := r.config.conventions
  match k.legacy with
  | none => q
  | some prefixes =>
      let respell (id : StreamId) : StreamId := ⟨prefixes.toLegacy k.marker id.text⟩
      ⟨q.clauses.map fun c => if c.store = k.defaultStore then c.mapIds respell else c⟩

end Resolver
end StreamScope
