import StreamScope.Scope.Expanded

/-!
The scope of a read, ready for a backend: a union of clauses, each the streams
of one store of which a record must carry one, and branches of which it must
carry one or none. A clause survives only with an inclusion of its own; one of
whose forced sets is empty matches nothing and is dropped. A query without
clauses matches nothing.
-/

namespace StreamScope

inductive Branch where
  /-- The record carries at least one of these streams. -/
  | any (ids : List StreamId)
  /-- The record carries none of these streams. -/
  | not (ids : List StreamId)
deriving DecidableEq, Repr

namespace Branch

def ids : Branch → List StreamId
  | .any streams => streams
  | .not streams => streams

def isInclusion : Branch → Bool
  | .any _ => true
  | .not _ => false

def map (f : StreamId → StreamId) : Branch → Branch
  | .any streams => .any (streams.map f)
  | .not streams => .not (streams.map f)

def toJson : Branch → Json
  | .any streams => .object [("any", StreamId.listToJson streams)]
  | .not streams => .object [("not", StreamId.listToJson streams)]

def ofJson? (j : Json) : Option Branch := do
  match ← j.asSingle? with
  | ("any", streams) => (StreamId.listOfJson? streams).map .any
  | ("not", streams) => (StreamId.listOfJson? streams).map .not
  | _ => none

end Branch

structure ResolvedClause where
  store : StoreId
  any : Option (List StreamId) := none
  branches : List Branch := []
deriving DecidableEq, Repr

namespace ResolvedClause

/-- Every list of which a record must carry a stream. -/
def inclusions (c : ResolvedClause) : List (List StreamId) :=
  c.any.toList ++ (c.branches.filter Branch.isInclusion).map Branch.ids

/-- Whether some stream is included. -/
def hasInclusion (c : ResolvedClause) : Bool := c.inclusions.any fun ids => !ids.isEmpty

def excludedIds (c : ResolvedClause) : List StreamId :=
  (c.branches.filter fun b => !b.isInclusion).flatMap Branch.ids

def mapIds (f : StreamId → StreamId) (c : ResolvedClause) : ResolvedClause :=
  { c with any := c.any.map (·.map f), branches := c.branches.map (Branch.map f) }

/-- An absent `any` and an empty list of branches are not written. -/
def toJson (c : ResolvedClause) : Json :=
  .ofFields ([("storeId", .string c.store.text)] ++
    (c.any.map fun ids => ("any", StreamId.listToJson ids)).toList ++
    (if c.branches.isEmpty then [] else [("and", .array (c.branches.map Branch.toJson))]))

def ofJson? (j : Json) : Option ResolvedClause := do
  match ← j.record? .json ["storeId", "any", "and"] with
  | [store, any, branches] =>
      pure {
        store := ⟨← Json.required Json.asString? store⟩
        any := ← Json.nullable StreamId.listOfJson? any
        branches := ← Json.defaulted [] (Json.asList? Branch.ofJson?) branches }
  | _ => none

end ResolvedClause

structure ResolvedQuery where
  clauses : List ResolvedClause
deriving DecidableEq, Repr

namespace ResolvedQuery

/-- The stores of the clauses, sorted. -/
def storeIds (q : ResolvedQuery) : List StoreId :=
  Ascending.ofList compare (q.clauses.map ResolvedClause.store)

/-- The clauses of one store. -/
def forStore (q : ResolvedQuery) (store : StoreId) : List ResolvedClause :=
  q.clauses.filter fun c => c.store = store

/-- The included streams with their stores, sorted. -/
def streamIds (q : ResolvedQuery) : List (StoreId × StreamId) :=
  Ascending.ofList Ascending.byPair
    (q.clauses.flatMap fun c => c.inclusions.flatten.map fun id => (c.store, id))

def toJson (q : ResolvedQuery) : Json := .array (q.clauses.map ResolvedClause.toJson)

def ofJson? (j : Json) : Option ResolvedQuery :=
  (j.asList? ResolvedClause.ofJson?).map ResolvedQuery.mk

end ResolvedQuery

namespace ExpandedClause

def nonempty? (ids : List StreamId) : Option (List StreamId) :=
  if ids.isEmpty then none else some ids

/-- The resolved form of a clause, if it survives. Empty sets are left out, and what is excluded
comes last. -/
def reduce? (c : ExpandedClause) : Option ResolvedClause :=
  let any := c.any.bind nonempty?
  let all := c.all.filterMap nonempty?
  if any = none ∧ all = [] then none
  else if c.forced.any List.isEmpty then none
  else some {
    store := c.store
    any
    branches := (all ++ c.forced).map .any ++ ((nonempty? c.not).map .not).toList }

end ExpandedClause

def reduceClauses (clauses : List ExpandedClause) : ResolvedQuery :=
  ⟨clauses.filterMap ExpandedClause.reduce?⟩

end StreamScope
