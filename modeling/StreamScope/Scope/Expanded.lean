import StreamScope.Query.Clause
import StreamScope.Registry
import StreamScope.Resolver.Error

/-!
Clauses in which every id has become a set of streams. An unmarked id stands for
its stream and those below, a marked one for its stream alone. What a clause
includes is expanded without the ids of its `not`, and its `not` without the ids
of its `any`, so the nearest mention of a stream decides. An included id without
a stream is reported; an excluded one is kept as it is, and a forced one stands
for no stream at all.
-/

namespace StreamScope

/-- The sets of a clause: one for `any` and `not`, one for each `all` id and each forced id. -/
structure ExpandedClause where
  store : StoreId
  any : Option (List StreamId) := none
  all : List (List StreamId) := []
  not : List StreamId := []
  forced : List (List StreamId) := []
deriving DecidableEq, Repr

namespace ExpandedClause

def ofJson? (j : Json) : Option ExpandedClause := do
  match ← j.record? .json ["storeId", "any", "all", "not", "forced"] with
  | [store, any, all, not, forced] =>
      pure {
        store := ⟨← Json.required Json.asString? store⟩
        any := ← Json.nullable StreamId.listOfJson? any
        all := ← Json.defaulted [] (Json.asList? StreamId.listOfJson?) all
        not := ← Json.defaulted [] StreamId.listOfJson? not
        forced := ← Json.defaulted [] (Json.asList? StreamId.listOfJson?) forced }
  | _ => none

def toJson (c : ExpandedClause) : Json :=
  .ofFields [("storeId", .string c.store.text),
    ("any", (c.any.map StreamId.listToJson).getD .null),
    ("all", .array (c.all.map StreamId.listToJson)),
    ("not", StreamId.listToJson c.not),
    ("forced", .array (c.forced.map StreamId.listToJson))]

end ExpandedClause

/-- How expansion reads ids: under which conventions, in which stores, in which state. -/
structure Expansion where
  conventions : Conventions
  registry : Registry
  state : StreamState

namespace Expansion

/-- The streams of all lists, each once, where it first stands. -/
def union (lists : List (List StreamId)) : List StreamId := lists.flatten.eraseDups

/-- The streams that one id stands for. -/
def reach (e : Expansion) (store : StoreId) (excluded : List StreamId) (seed : StreamId) :
    Lookup (List StreamId) :=
  if e.conventions.isNoExpand seed then .ok (some [e.conventions.stripMarker seed])
  else e.registry.expand store seed excluded e.state

/-- The streams of included ids, and the full ids of those without a stream. -/
def included (e : Expansion) (store : StoreId) (excluded seeds : List StreamId) :
    Except LookupError (List StreamId × List StreamId) := do
  let reached ← seeds.mapM fun seed => do
    let streams ← e.reach store excluded seed
    pure (seed, streams)
  let missing := (reached.filter fun r => r.2 = none).map fun r => e.conventions.fullId store r.1
  pure (union (reached.filterMap Prod.snd), missing)

/-- The streams of excluded ids. -/
def excludedIds (e : Expansion) (store : StoreId) (spared seeds : List StreamId) :
    Except LookupError (List StreamId) := do
  let reached ← seeds.mapM fun seed => (e.reach store spared seed).map (·.getD [seed])
  pure (union reached)

def forcedIds (e : Expansion) (store : StoreId) (excluded seeds : List StreamId) :
    Except LookupError (List (List StreamId)) :=
  seeds.mapM fun seed => (e.reach store excluded seed).map (·.getD [])

/-- The ids that `any` includes; the wildcard is expanded from its own id. -/
def anySeeds : Inclusion → List StreamId
  | .wildcard => [.wildcard]
  | .ids streams => streams

/-- The expanded clause and the full ids of its included ids without a stream. -/
def clause (e : Expansion) (c : QueryClause) :
    Except LookupError (ExpandedClause × List StreamId) := do
  let excluded := c.not.map e.conventions.stripMarker
  let spared := c.anyIds.map e.conventions.stripMarker
  let any ← match c.any with
    | none => pure none
    | some inclusion => (e.included c.store excluded (anySeeds inclusion)).map some
  let all ← c.all.mapM fun seed => e.included c.store excluded [seed]
  let forced ← e.forcedIds c.store excluded c.forced
  let not ← e.excludedIds c.store spared c.not
  pure ({ store := c.store, any := any.map Prod.fst, all := all.map Prod.fst, not, forced },
    (any.toList ++ all).flatMap Prod.snd)

end Expansion

def expandClauses (e : Expansion) (clauses : List QueryClause) :
    Except ResolveError (List ExpandedClause) := do
  let expanded ← (clauses.mapM e.clause).mapError .lookup
  match (expanded.flatMap Prod.snd).eraseDups with
  | [] => pure (expanded.map Prod.fst)
  | ids => throw (.unknownStreams ids)

end StreamScope
