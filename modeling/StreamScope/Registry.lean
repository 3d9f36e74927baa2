import StreamScope.Backend

/-!
The stores that can be asked, each under its own name. A store that is not
registered holds no streams: every look-up in it finds nothing.
-/

namespace StreamScope

structure Registry where
  stores : List (StoreId × Backend)
  distinct : (stores.map Prod.fst).Nodup

namespace Registry

def empty : Registry := ⟨[], List.nodup_nil⟩

def names (r : Registry) : List StoreId := r.stores.map Prod.fst

def contains (r : Registry) (store : StoreId) : Bool := store ∈ r.names

def backend? (r : Registry) (store : StoreId) : Option Backend :=
  (r.stores.find? fun entry => entry.1 = store).map Prod.snd

/-- Nothing if the name is taken. -/
def register? (r : Registry) (store : StoreId) (backend : Backend) : Option Registry :=
  if h : store ∈ r.names then none
  else some ⟨(store, backend) :: r.stores, List.nodup_cons.2 ⟨h, r.distinct⟩⟩

def takenMessage (store : StoreId) : String := "store already registered: " ++ store.text

/-- The names of the stores, sorted. -/
def storeIds (r : Registry) : List StoreId := Ascending.ofList compare r.names

def inspect (r : Registry) : String :=
  let stores := r.storeIds.map fun store => "StoreId(" ++ store.text ++ ")"
  "StoreRegistry \x7b stores: [" ++ ", ".intercalate stores ++ "] \x7d"

def find (r : Registry) (store : StoreId) (id : StreamId) : Lookup Stream :=
  match r.backend? store with
  | some backend => backend.find id
  | none => .ok none

def expand (r : Registry) (store : StoreId) (id : StreamId) (excluded : List StreamId)
    (state : StreamState) : Lookup (List StreamId) :=
  match r.backend? store with
  | some backend => backend.expand id excluded state
  | none => .ok none

def ancestors (r : Registry) (store : StoreId) (id : StreamId) : Lookup (List StreamId) :=
  match r.backend? store with
  | some backend => backend.ancestors id
  | none => .ok none

end Registry
end StreamScope
