import StreamScope.Backend
import StreamScope.Forest.Building

/-!
The tables in which a store keeps its forest: the streams, the children of each
stream and the roots. They are written one after the other, and what a command
wrote before it was refused stays written. Every command therefore looks first
at all that could refuse it.
-/

namespace StreamScope.Forest

structure Index where
  streams : List Stream := []
  /-- The children of each stream that has any, in insertion order. -/
  children : List (StreamId × List StreamId) := []
  roots : List StreamId := []
deriving DecidableEq, Repr

namespace Index

def ids (i : Index) : List StreamId := i.streams.map Stream.id

def contains (i : Index) (id : StreamId) : Bool := id ∈ i.ids

def find? (i : Index) (id : StreamId) : Option Stream := Lineage.find? i.streams id

def childrenOf (i : Index) (id : StreamId) : List StreamId := (i.children.lookup id).getD []

/-- Writes a stream in the place of the one with its id, or after all others. -/
def putStream (s : Stream) (streams : List Stream) : List Stream :=
  if s.id ∈ streams.map Stream.id then streams.map fun t => if t.id = s.id then s else t
  else streams ++ [s]

/-- Writes a child after the others of its parent. -/
def putChild (parent child : StreamId) :
    List (StreamId × List StreamId) → List (StreamId × List StreamId)
  | [] => [(parent, [child])]
  | (p, ids) :: table =>
      if p = parent then (p, ids ++ [child]) :: table
      else (p, ids) :: putChild parent child table

abbrev Update := ExceptT Fault (StateM Index)

/-- The answer to a command and the tables after it. -/
def exec {α : Type} (i : Index) (u : Update α) : Except Fault α × Index := u.run.run i

def insert (s : Stream) : Update Unit := do
  let i ← get
  if s.id = .wildcard then throw (.reservedId s.id)
  if i.contains s.id then throw (.duplicateStream s.id)
  match s.parent with
  | some parent =>
      if !i.contains parent then throw (.missingParent s.id parent)
      modify fun i => { i with children := putChild parent s.id i.children }
  | none => modify fun i => { i with roots := i.roots ++ [s.id] }
  modify fun i => { i with streams := putStream s i.streams }

/-- Whether there was such a stream to trash or restore. -/
def setTrashed (id : StreamId) (trashed : Bool) : Update Bool := do
  let i ← get
  if i.contains id then
    set { i with streams := i.streams.map (flag id trashed) }
    pure true
  else pure false

/-- One pass over pending streams: inserts those whose parent is there and keeps the rest. -/
def insertReady : List Stream → Update (List Stream)
  | [] => pure []
  | s :: rest => do
      let i ← get
      if s.parent.all i.contains then
        insert s
        insertReady rest
      else
        let deferred ← insertReady rest
        pure (s :: deferred)

def insertAll (pending : List Stream) : Update Unit := do
  match ← insertReady pending with
  | [] => pure ()
  | first :: rest =>
      if (first :: rest).length < pending.length then insertAll (first :: rest)
      else throw (diagnose first rest)
termination_by pending.length

/-- The tables of streams that come in any order. -/
def ofStreams (streams : List Stream) : Except Fault Index :=
  match exec {} (insertAll streams) with
  | (.ok (), i) => .ok i
  | (.error fault, _) => .error fault

/-- What is asked of the tables once they are built. -/
inductive Call where
  | insert (s : Stream)
  | setTrashed (id : StreamId) (trashed : Bool)
deriving DecidableEq, Repr

/-- The call as a command. An insert that is not refused answers true. -/
def Call.update : Call → Update Bool
  | .insert s => do
      Index.insert s
      pure true
  | .setTrashed id trashed => Index.setTrashed id trashed

def call (i : Index) (c : Call) : Except Fault Bool × Index := i.exec c.update

/-- The tables after calls one after the other, whatever their answers. -/
def run (i : Index) (calls : List Call) : Index := calls.foldl (fun i c => (i.call c).2) i

def visible? (i : Index) (excluded : List StreamId) (state : StreamState) (id : StreamId) :
    Option Stream :=
  if id ∈ excluded then none
  else (i.find? id).filter fun s => !s.trashed || state.includesTrashed

theorem mem_of_visible? {i : Index} {excluded : List StreamId} {state : StreamState}
    {id : StreamId} {s : Stream} (h : i.visible? excluded state id = some s) :
    s ∈ i.streams ∧ s.id = id := by
  unfold visible? at h
  split at h
  · simp at h
  · exact Lineage.mem_of_find? (Option.filter_eq_some_iff.1 h).1

/-- Walks the tables from a stack of ids. -/
def walk (i : Index) (excluded : List StreamId) (state : StreamState) (seen : List StreamId) :
    List StreamId → List StreamId
  | [] => []
  | id :: stack =>
      if _hs : id ∈ seen then walk i excluded state seen stack
      else
        match _hv : i.visible? excluded state id with
        | none => walk i excluded state seen stack
        | some _ => id :: walk i excluded state (id :: seen) (i.childrenOf id ++ stack)
termination_by stack => (Lineage.remaining i.streams seen, stack.length)
decreasing_by
  · exact Prod.Lex.right _ (by simp)
  · exact Prod.Lex.right _ (by simp)
  · obtain ⟨hmem, hid⟩ := mem_of_visible? _hv
    exact Prod.Lex.left _ _
      (Lineage.remaining_lt hmem (by rwa [hid]) (by simp [hid]) (List.subset_cons_self _ _))

def expand (i : Index) (id : StreamId) (excluded : List StreamId) (state : StreamState) :
    Option (List StreamId) :=
  if id = .wildcard then some (i.walk excluded state [] i.roots)
  else if i.contains id then some (i.walk excluded state [] [id])
  else none

/-- What a store answers from its tables. -/
def backend (i : Index) : Backend where
  find id := .ok (i.find? id)
  expand id excluded state := .ok (i.expand id excluded state)
  ancestors := Backend.ancestorsIn i.streams

end Index
end StreamScope.Forest
