import StreamScope.Json.Typed

/-!
Streams and their names. A store holds a forest of streams; a stream names its
parent by id. Ids are opaque text, and the id `*` stands for every stream of a
store. Before an id is bound to a store it may carry the store's name and the
do-not-expand marker.
-/

namespace StreamScope

structure StreamId where
  text : String
deriving DecidableEq, Repr

structure StoreId where
  text : String
deriving DecidableEq, Repr

instance : Ord StreamId := ⟨fun a b => compare a.text b.text⟩

instance : Ord StoreId := ⟨fun a b => compare a.text b.text⟩

namespace StreamId

/-- Stands for every stream of a store. -/
def wildcard : StreamId := ⟨"*"⟩

def toJson (id : StreamId) : Json := .string id.text

def ofJson? (j : Json) : Option StreamId := j.asString?.map StreamId.mk

/-- Ids as messages list them. -/
def joined (ids : List StreamId) : String := ", ".intercalate (ids.map text)

def listToJson (ids : List StreamId) : Json := .array (ids.map toJson)

def listOfJson? (j : Json) : Option (List StreamId) := j.asList? ofJson?

theorem ofJson?_toJson (id : StreamId) : ofJson? id.toJson = some id := rfl

end StreamId

structure Stream where
  id : StreamId
  parent : Option StreamId
  trashed : Bool
deriving DecidableEq, Repr

namespace Stream

def toJson (s : Stream) : Json :=
  .ofFields [("id", s.id.toJson), ("parentId", (s.parent.map StreamId.toJson).getD .null),
    ("trashed", .bool s.trashed)]

def ofJson? (source : Json.Source) (j : Json) : Option Stream := do
  match ← j.record? source ["id", "parentId", "trashed"] with
  | [id, parent, trashed] =>
      pure {
        id := ← Json.required StreamId.ofJson? id
        parent := ← Json.nullable StreamId.ofJson? parent
        trashed := ← Json.defaulted false Json.asBool? trashed }
  | _ => none

end Stream

/-- Which streams a read may see: only live ones, or trashed ones too. -/
inductive StreamState where
  | live
  | trashed
  | all
deriving DecidableEq, Repr

namespace StreamState

/-- Whether trashed streams stay in scope. -/
def includesTrashed : StreamState → Bool
  | .live => false
  | .trashed => true
  | .all => true

def name : StreamState → String
  | .live => "default"
  | .trashed => "trashed"
  | .all => "all"

def ofName? (text : String) : Option StreamState :=
  [live, trashed, all].find? fun state => state.name = text

def unknownMessage (text : String) : String := "invalid stream state: " ++ text

def ofJson? (source : Json.Source) (j : Json) : Option StreamState :=
  (j.asName? source).bind ofName?

theorem ofName?_name (state : StreamState) : ofName? state.name = some state := by
  cases state <;> decide

end StreamState
end StreamScope
