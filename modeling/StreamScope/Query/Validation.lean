import StreamScope.Query.Clause
import StreamScope.Query.Conventions
import StreamScope.Query.Fault

/-!
Validation of raw clauses. A clause names streams under `any`, `all` and `not`
only, and all its ids lie in one store. `*` stands alone, in `any`, and never
beside `all`; any other id is an optional marker and a body free of the marker,
of `*` and of forbidden characters. A valid clause is bound to its store and its
ids are local.
-/

namespace StreamScope.Validation

/-- The store of the first id seen, with that id. -/
abbrev Binding := Option (StoreId × String)

def isForbidden (c : Char) : Bool :=
  Text.isWhitespace c || Text.isControl c ||
    ['"', ',', '\\', '[', ']', '\x7b', '\x7d'].contains c

/-- What is wrong with a local id that is not the wildcard. -/
def idFault? (marker : Char) (id : StreamId) : Option IdFault :=
  let body := (Marker.cut marker id.text.toList).2
  if body = ['*'] then some (.markedWildcard marker)
  else if body.isEmpty then some .empty
  else if body.contains marker then some (.innerMarker marker)
  else if body.contains '*' then some .innerWildcard
  else (body.find? isForbidden).map .forbiddenCharacter

/-- Binds the clause to the store of an id, or holds it to the store it is bound to. -/
def bindStore (clause : RawClause) (full : String) (store : StoreId) :
    Binding → Except RequestFault Binding
  | none => .ok (some (store, full))
  | some (bound, first) =>
      if bound = store then .ok (some (bound, first))
      else .error (.mixedStores clause first full)

def checkId (k : Conventions) (clause : RawClause) (part : Combinator) (alone : Bool)
    (full : String) (id : StreamId) : Except RequestFault Unit :=
  if id = .wildcard then
    if part ≠ .any then .error (.clause clause (.wildcardOutsideAny part))
    else if !alone then .error (.clause clause .wildcardAmongIds)
    else .ok ()
  else
    match idFault? k.marker id with
    | some fault => .error (.id full fault)
    | none => .ok ()

/-- The local ids of a list, in its order. -/
def checkItems (k : Conventions) (clause : RawClause) (part : Combinator) (alone : Bool) :
    Binding → List Json → Except RequestFault (List StreamId × Binding)
  | bound, [] => .ok ([], bound)
  | bound, .string full :: items => do
      let (store, id) := k.split full
      let bound ← bindStore clause full store bound
      checkId k clause part alone full id
      let (ids, bound) ← checkItems k clause part alone bound items
      pure (id :: ids, bound)
  | _, other :: _ => .error (.clause clause (.notId part other))

def checkPart (k : Conventions) (clause : RawClause) (part : Combinator) (bound : Binding) :
    Json → Except RequestFault (List StreamId × Binding)
  | .array items => checkItems k clause part (items.length ≤ 1) bound items
  | other => .error (.clause clause (.notArray part other))

/-- The ids under a combinator, none if it is absent. -/
def checkOptionalPart (k : Conventions) (clause : RawClause) (part : Combinator) (bound : Binding) :
    Except RequestFault (List StreamId × Binding) :=
  match clause.get? part with
  | some value => checkPart k clause part bound value
  | none => .ok ([], bound)

/-- A lone `"*"` is the wildcard too. It names no store. -/
def checkAny (k : Conventions) (clause : RawClause) :
    Except RequestFault (Option Inclusion × Binding) :=
  match clause.get? .any with
  | none => .ok (none, none)
  | some (.string "*") => .ok (some .wildcard, none)
  | some value => do
      let (ids, bound) ← checkPart k clause .any none value
      pure (some (if ids = [.wildcard] then .wildcard else .ids ids), bound)

def checkProperties (clause : RawClause) : Except RequestFault Unit :=
  if (clause.get? .any).isNone && (clause.get? .all).isNone then
    .error (.clause clause .missingInclusion)
  else
    match clause.fields.find? fun (key, _) => !Combinator.keys.contains key with
    | some (key, _) => .error (.clause clause (.unknownProperty key))
    | none => .ok ()

end Validation

open Validation in
/-- The valid clause of a raw one. Without any id it lies in the default store. -/
def validateClause (k : Conventions) (clause : RawClause) : Except RequestFault QueryClause := do
  checkProperties clause
  let (any, bound) ← checkAny k clause
  let (all, bound) ← checkOptionalPart k clause .all bound
  let (not, bound) ← checkOptionalPart k clause .not bound
  if any = some .wildcard && (clause.get? .all).isSome then
    throw (.clause clause .wildcardWithAll)
  if (any.map Inclusion.isEmpty).getD true && all.isEmpty then
    throw (.clause clause .noStream)
  pure { store := (bound.map (·.1)).getD k.defaultStore, any, all, not }

/-- Validates every clause, up to the first that is not valid. -/
def validate (k : Conventions) (clauses : List RawClause) :
    Except RequestFault (List QueryClause) :=
  clauses.mapM (validateClause k)

end StreamScope
