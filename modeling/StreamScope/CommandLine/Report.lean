import StreamScope.Resolver.Basic

/-!
What the program shows of a resolved scope: the clauses, a predicate for each
store, and the stages that were run. Ids may be shown in their legacy spelling;
predicates never are.
-/

namespace StreamScope.CommandLine

structure Report where
  shown : ResolvedQuery
  predicates : List (StoreId × StreamPredicate)

namespace Report

def branchLine : Branch → String
  | .any ids => "      and any: " ++ StreamId.joined ids
  | .not ids => "      and not: " ++ StreamId.joined ids

def clauseLines (c : ResolvedClause) (index : Nat) : List String :=
  ("  [" ++ toString index ++ "] store " ++ c.store.text) ::
    (c.any.map fun ids => "      any: " ++ StreamId.joined ids).toList ++ c.branches.map branchLine

def title (r : Report) : String :=
  match r.shown.clauses.length with
  | 0 => "✓ Resolved to an empty scope: nothing is readable."
  | n => "✓ Resolved " ++ toString n ++ " clause(s)"

def predicateLines (r : Report) : List String :=
  if r.predicates.isEmpty then []
  else ["", "Predicates:"] ++ r.predicates.map fun (store, p) => "  " ++ store.text ++ ": " ++ p.text

def stageLines (elapsed : Duration) : List String :=
  ["", "Stages:"] ++ Stage.all.map (fun stage => "  " ++ stage.name) ++
    ["  total " ++ elapsed.text]

def lines (r : Report) (elapsed : Duration) : List String :=
  r.title :: (r.shown.clauses.mapIdx fun i c => clauseLines c i).flatten ++ r.predicateLines ++
    stageLines elapsed

def toJson (r : Report) : Json :=
  .ofFields [("query", r.shown.toJson),
    ("predicates", .ofFields (r.predicates.map fun (store, p) => (store.text, .string p.text))),
    ("stages", .ofStrings (Stage.all.map Stage.name))]

end Report
end StreamScope.CommandLine
