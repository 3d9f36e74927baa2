import StreamScope.Json.Parser
import StreamScope.Query.Conventions
import StreamScope.Query.Fault

/-!
The streams parameter of a request in any of its forms: not sent, one id, a list
of ids, clauses, or JSON text of one of these. `normalize` turns it into raw
clauses; ids that came as a list are grouped by store, in the order in which the
stores first appear.
-/

namespace StreamScope

inductive StreamsParameter where
  | absent
  | ids (flat : List String)
  | clauses (structured : List RawClause)

namespace StreamsParameter

/-- Text that opens an array or an object after any blanks. -/
def looksLikeJson (text : String) : Bool :=
  match (text.toList.dropWhile Text.isWhitespace).head? with
  | some c => c = '[' || c = '\x7b'
  | none => false

/-- The ids and the clauses among the items of a list. -/
def sortItems : List Json → Except RequestFault (List String × List RawClause)
  | [] => .ok ([], [])
  | .string id :: items => do
      let (flat, structured) ← sortItems items
      pure (id :: flat, structured)
  | .object fields :: items => do
      let (flat, structured) ← sortItems items
      pure (flat, ⟨fields⟩ :: structured)
  | other :: _ => .error (.unexpectedItem other)

def ofItems (items : List Json) : Except RequestFault StreamsParameter := do
  let (flat, structured) ← sortItems items
  match flat, structured with
  | _ :: _, _ :: _ => .error .mixedForms
  | _ :: _, [] => pure (.ids flat)
  | [], _ => pure (.clauses structured)

/-- Reads a value in which a string is an id. -/
def ofValue : Json → Except RequestFault StreamsParameter
  | .null => .ok .absent
  | .string id => .ok (.ids [id])
  | .object fields => .ok (.clauses [⟨fields⟩])
  | .array items => ofItems items
  | other => .error (.unexpectedValue other)

/-- A string may be JSON text, but the strings within that text are ids. -/
def parse : Option Json → Except RequestFault StreamsParameter
  | none => .ok .absent
  | some (.string text) =>
      if looksLikeJson text then
        match Json.ofText? text with
        | some value => ofValue value
        | none => .error .malformedJson
      else .ok (.ids [text])
  | some value => ofValue value

/-- Adds an id to the group of its store, or opens a group for it. -/
def addToGroup (store : StoreId) (id : String) :
    List (StoreId × List String) → List (StoreId × List String)
  | [] => [(store, [id])]
  | (s, members) :: groups =>
      if s = store then (s, members ++ [id]) :: groups
      else (s, members) :: addToGroup store id groups

def groupByStore (k : Conventions) (flat : List String) : List RawClause :=
  (flat.foldl (fun groups id => addToGroup (k.storeOf id) id groups) []).map fun (_, members) =>
    .ofIds members

/-- An id in the current spelling, if the request may use the legacy one. -/
def currentSpelling (k : Conventions) (legacy : Bool) (id : String) : String :=
  match k.legacy with
  | some prefixes => if legacy then prefixes.toCurrent k.marker id else id
  | none => id

end StreamsParameter

open StreamsParameter in
/-- The raw clauses of a streams parameter. The default is taken as it is when none was sent;
what was sent is first put in the current spelling. -/
def normalize (k : Conventions) (defaults : List RawClause) (legacy : Bool)
    (raw : Option Json) : Except RequestFault (List RawClause) := do
  match ← parse raw with
  | .absent => pure defaults
  | .clauses structured => pure (structured.map (RawClause.mapIds (currentSpelling k legacy)))
  | .ids flat => pure (groupByStore k (flat.map (currentSpelling k legacy)))

end StreamScope
