import StreamScope.Query.Marker
import StreamScope.Text.Quoted

/-!
Two spellings of one prefix. Older clients name system streams with the legacy
prefix where the current scheme has another. An id changes its spelling by its
prefix, behind an optional marker; an id that is only the prefix is left alone.
-/

namespace StreamScope

structure LegacyPrefixes where
  legacy : String
  current : String
deriving DecidableEq, Repr

namespace LegacyPrefixes

/-- Why a pair of prefixes cannot be told apart, or cannot be found in an id. -/
inductive Fault where
  | empty
  | overlapping (legacy current : String)
  | marked
deriving DecidableEq, Repr

namespace Fault

def message : Fault → String
  | .empty => "legacy prefixes must not be empty"
  | .overlapping legacy current =>
      "legacy prefix " ++ Text.quoteString legacy ++ " and current prefix " ++
        Text.quoteString current ++ " overlap"
  | .marked => "legacy prefixes must not start with the no-expand marker"

end Fault

def fault? (marker : Char) (p : LegacyPrefixes) : Option Fault :=
  let legacy := p.legacy.toList
  let current := p.current.toList
  if legacy.isEmpty || current.isEmpty then some .empty
  else if legacy.isPrefixOf current || current.isPrefixOf legacy then
    some (.overlapping p.legacy p.current)
  else if legacy.head? = some marker || current.head? = some marker then some .marked
  else none

/-- Replaces the prefix `old` by `new` where something follows it. -/
def swap (marker : Char) (old new id : String) : String :=
  let (head, body) := Marker.cut marker id.toList
  if old.toList.isPrefixOf body && old.toList.length < body.length then
    String.ofList (head ++ new.toList ++ body.drop old.toList.length)
  else id

def toCurrent (p : LegacyPrefixes) (marker : Char) (id : String) : String :=
  swap marker p.legacy p.current id

def toLegacy (p : LegacyPrefixes) (marker : Char) (id : String) : String :=
  swap marker p.current p.legacy id

def toJson (p : LegacyPrefixes) : Json :=
  .ofFields [("legacy", .string p.legacy), ("current", .string p.current)]

def ofJson? (source : Json.Source) (j : Json) : Option LegacyPrefixes := do
  match ← j.record? source ["legacy", "current"] with
  | [legacy, current] =>
      pure {
        legacy := ← Json.required Json.asString? legacy
        current := ← Json.required Json.asString? current }
  | _ => none

end LegacyPrefixes
end StreamScope
