import StreamScope.Json.Printer

/-!
A clause of a streams query as the caller sent it: a JSON object under no checks
yet. Its text is the compact form of that object.
-/

namespace StreamScope

/-- The three ways in which a clause names streams. -/
inductive Combinator where
  | any
  | all
  | not
deriving DecidableEq, Repr

namespace Combinator

def key : Combinator → String
  | .any => "any"
  | .all => "all"
  | .not => "not"

def keys : List String := [any.key, all.key, not.key]

end Combinator

structure RawClause where
  fields : List (String × Json)

namespace RawClause

/-- A clause that includes the given ids. -/
def ofIds (ids : List String) : RawClause := ⟨[(Combinator.any.key, .ofStrings ids)]⟩

def get? (c : RawClause) (part : Combinator) : Option Json := Json.lookup? c.fields part.key

def text (c : RawClause) : String := (Json.object c.fields).print

def mapString (f : String → String) : Json → Json
  | .string s => .string (f s)
  | j => j

def mapIdsAt (f : String → String) (key : String) (value : Json) : Json :=
  if Combinator.keys.contains key then
    match value with
    | .array items => .array (items.map (mapString f))
    | other => mapString f other
  else value

/-- Applies `f` to every string under a combinator. -/
def mapIds (f : String → String) (c : RawClause) : RawClause :=
  ⟨c.fields.map fun (key, value) => (key, mapIdsAt f key value)⟩

end RawClause
end StreamScope
