import StreamScope.Forest.Walk

/-!
What a store answers. `none` says that a stream does not exist; a store that
cannot tell fails instead, and a stalled one never answers, which a caller that
waits sees as the end of its time.
-/

namespace StreamScope

/-- Why a store gave no answer. -/
inductive LookupError where
  /-- Parent links lead back to the stream. -/
  | cycle (id : StreamId)
  | unavailable (store : StoreId) (reason : String)
  | stalled
deriving DecidableEq, Repr

namespace LookupError

def message : LookupError → String
  | .cycle id => (Forest.Fault.cycle id).message
  | .unavailable store reason => "store " ++ store.text ++ " unavailable: " ++ reason
  | .stalled => "no answer"

end LookupError

abbrev Lookup (α : Type) := Except LookupError (Option α)

structure Backend where
  find : StreamId → Lookup Stream
  /-- The seed and the streams below it, without the excluded ids and all below these. -/
  expand : StreamId → List StreamId → StreamState → Lookup (List StreamId)
  /-- The stream and its parents, nearest first. -/
  ancestors : StreamId → Lookup (List StreamId)

namespace Backend

def ancestorsIn (streams : List Stream) (id : StreamId) : Lookup (List StreamId) :=
  (Lineage.ancestors streams id).mapError .cycle

def ofForest (f : Forest) : Backend where
  find id := .ok (f.find? id)
  expand id excluded state := .ok (f.expand id excluded state)
  ancestors := ancestorsIn f.streams

/-- A bare listing finds the first stream with an id and follows links as they are, but cannot
expand. -/
def ofListing (store : StoreId) (streams : List Stream) : Backend where
  find id := .ok (Lineage.find? streams id)
  expand _ _ _ := .error (.unavailable store "cannot expand")
  ancestors := ancestorsIn streams

def failing (e : LookupError) : Backend where
  find _ := .error e
  expand _ _ _ := .error e
  ancestors _ := .error e

end Backend
end StreamScope
