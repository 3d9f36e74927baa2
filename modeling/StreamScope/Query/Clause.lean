import StreamScope.Stream

/-!
A validated clause of a streams query, bound to one store. Its ids are local to
the store and may still be marked. A record belongs to the clause if it carries
a stream of `any`, one of each `all` id and of each forced id, and none of `not`.
-/

namespace StreamScope

/-- What a clause includes: all that can be read in the store, or the listed ids. -/
inductive Inclusion where
  | wildcard
  | ids (streams : List StreamId)
deriving DecidableEq, Repr

namespace Inclusion

/-- The listed ids; the wildcard lists none. -/
def listed : Inclusion → List StreamId
  | .wildcard => []
  | .ids streams => streams

/-- Whether no stream can be included. -/
def isEmpty : Inclusion → Bool
  | .wildcard => false
  | .ids streams => streams.isEmpty

def toJson : Inclusion → Json
  | .wildcard => StreamId.listToJson [.wildcard]
  | .ids streams => StreamId.listToJson streams

end Inclusion

/-- The streams that the access restricts every read to stand apart in `forced`: they narrow the
clause and never count as its inclusions. -/
structure QueryClause where
  store : StoreId
  any : Option Inclusion := none
  all : List StreamId := []
  not : List StreamId := []
  forced : List StreamId := []
deriving DecidableEq, Repr

namespace QueryClause

/-- All that can be read in a store. -/
def wildcard (store : StoreId) : QueryClause := { store, any := some .wildcard }

/-- The listed streams of a store. -/
def ofIds (store : StoreId) (ids : List StreamId) : QueryClause := { store, any := some (.ids ids) }

def isWildcard (c : QueryClause) : Bool := c.any = some .wildcard

def anyIds (c : QueryClause) : List StreamId := (c.any.map Inclusion.listed).getD []

def listField (key : String) (ids : List StreamId) : List (String × Json) :=
  if ids.isEmpty then [] else [(key, StreamId.listToJson ids)]

/-- Parts that name no stream are left out, save an empty list in `any`. -/
def toJson (c : QueryClause) : Json :=
  .ofFields ([("storeId", .string c.store.text)] ++
    (c.any.map fun any => ("any", any.toJson)).toList ++
    listField "all" c.all ++ listField "not" c.not ++ listField "forced" c.forced)

end QueryClause
end StreamScope
