import StreamScope.Scope.Resolved

/-!
A predicate on the streams that a record carries, the form in which a backend
takes a scope. Compilation keeps the shape of the resolved query: a list of one
id becomes an equation, a conjunction or disjunction of one part is that part,
and a query without clauses becomes a membership in nothing.
-/

namespace StreamScope

inductive StreamPredicate where
  | eq (id : StreamId)
  | isIn (ids : List StreamId)
  | ne (id : StreamId)
  | notIn (ids : List StreamId)
  | and (parts : List StreamPredicate)
  | or (parts : List StreamPredicate)

namespace StreamPredicate

/-- The predicate that no record satisfies. -/
def nothing : StreamPredicate := .isIn []

/-- Whether a record carries one of the streams. -/
def hits (record ids : List StreamId) : Bool := ids.any fun id => record.contains id

mutual
/-- Whether a record that carries these streams satisfies the predicate. -/
def holds (record : List StreamId) : StreamPredicate → Bool
  | .eq id => record.contains id
  | .isIn ids => hits record ids
  | .ne id => !record.contains id
  | .notIn ids => !hits record ids
  | .and parts => holdsAll record parts
  | .or parts => holdsSome record parts

def holdsAll (record : List StreamId) : List StreamPredicate → Bool
  | [] => true
  | part :: parts => holds record part && holdsAll record parts

def holdsSome (record : List StreamId) : List StreamPredicate → Bool
  | [] => false
  | part :: parts => holds record part || holdsSome record parts
end

def listText (ids : List StreamId) : String := "(" ++ StreamId.joined ids ++ ")"

mutual
def text : StreamPredicate → String
  | .eq id => "streamIds = " ++ id.text
  | .ne id => "streamIds != " ++ id.text
  | .isIn ids => "streamIds IN " ++ listText ids
  | .notIn ids => "streamIds NOT IN " ++ listText ids
  | .and parts => "(" ++ joined " AND " parts ++ ")"
  | .or parts => "(" ++ joined " OR " parts ++ ")"

def joined (connective : String) : List StreamPredicate → String
  | [] => ""
  | part :: parts => text part ++ joinedAfter connective parts

def joinedAfter (connective : String) : List StreamPredicate → String
  | [] => ""
  | part :: parts => connective ++ text part ++ joinedAfter connective parts
end

mutual
def toJson : StreamPredicate → Json
  | .eq id => .object [("eq", id.toJson)]
  | .ne id => .object [("ne", id.toJson)]
  | .isIn ids => .object [("in", StreamId.listToJson ids)]
  | .notIn ids => .object [("notIn", StreamId.listToJson ids)]
  | .and parts => .object [("and", .array (listToJson parts))]
  | .or parts => .object [("or", .array (listToJson parts))]

def listToJson : List StreamPredicate → List Json
  | [] => []
  | part :: parts => toJson part :: listToJson parts
end

mutual
def ofJson? : Json → Option StreamPredicate
  | .object [("eq", id)] => (StreamId.ofJson? id).map .eq
  | .object [("ne", id)] => (StreamId.ofJson? id).map .ne
  | .object [("in", ids)] => (StreamId.listOfJson? ids).map .isIn
  | .object [("notIn", ids)] => (StreamId.listOfJson? ids).map .notIn
  | .object [("and", .array parts)] => (listOfJson? parts).map .and
  | .object [("or", .array parts)] => (listOfJson? parts).map .or
  | _ => none

def listOfJson? : List Json → Option (List StreamPredicate)
  | [] => some []
  | part :: parts => do
      let first ← ofJson? part
      let rest ← listOfJson? parts
      pure (first :: rest)
end

def inclusion : List StreamId → StreamPredicate
  | [single] => .eq single
  | ids => .isIn ids

def exclusion : List StreamId → StreamPredicate
  | [single] => .ne single
  | ids => .notIn ids

end StreamPredicate

def Branch.compile : Branch → StreamPredicate
  | .any streams => .inclusion streams
  | .not streams => .exclusion streams

def ResolvedClause.compile (c : ResolvedClause) : StreamPredicate :=
  match c.any.toList.map .inclusion ++ c.branches.map Branch.compile with
  | [part] => part
  | parts => .and parts

def compileClauses (clauses : List ResolvedClause) : StreamPredicate :=
  match clauses.map ResolvedClause.compile with
  | [] => .nothing
  | [part] => part
  | parts => .or parts

namespace ResolvedQuery

/-- The clauses of all stores together. -/
def compile (q : ResolvedQuery) : StreamPredicate := compileClauses q.clauses

def compileForStore (q : ResolvedQuery) (store : StoreId) : StreamPredicate :=
  compileClauses (q.forStore store)

/-- One predicate for each store of the query, sorted by store. -/
def compileAll (q : ResolvedQuery) : List (StoreId × StreamPredicate) :=
  q.storeIds.map fun store => (store, q.compileForStore store)

end ResolvedQuery
end StreamScope
