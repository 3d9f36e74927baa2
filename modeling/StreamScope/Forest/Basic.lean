import StreamScope.Forest.Lineage

/-!
The forest of one store: its streams in the order in which they were inserted.
A stream enters after its parent, under an id that is new and not the wildcard,
so a forest has no loops. Roots and children are listed in insertion order.
-/

namespace StreamScope

/-- Lists of streams that can be inserted one after the other. -/
inductive Forest.Grown : List Stream → Prop
  | empty : Grown []
  | insert {streams : List Stream} {s : Stream} (grown : Grown streams)
      (proper : s.id ≠ .wildcard) (fresh : s.id ∉ streams.map Stream.id)
      (rooted : ∀ p, s.parent = some p → p ∈ streams.map Stream.id) : Grown (streams ++ [s])

structure Forest where
  streams : List Stream
  grown : Forest.Grown streams

namespace Forest

/-- Why streams make no forest. -/
inductive Fault where
  | duplicateStream (id : StreamId)
  | missingParent (id parent : StreamId)
  | cycle (id : StreamId)
  | reservedId (id : StreamId)
deriving DecidableEq, Repr

namespace Fault

def message : Fault → String
  | .duplicateStream id => "duplicate stream id: " ++ id.text
  | .missingParent id parent => "parent " ++ parent.text ++ " of stream " ++ id.text ++ " not found"
  | .cycle id => "cycle detected at stream " ++ id.text
  | .reservedId id => "reserved stream id: " ++ id.text

end Fault

def empty : Forest := ⟨[], .empty⟩

def ids (f : Forest) : List StreamId := f.streams.map Stream.id

def contains (f : Forest) (id : StreamId) : Bool := id ∈ f.ids

def find? (f : Forest) (id : StreamId) : Option Stream := Lineage.find? f.streams id

def size (f : Forest) : Nat := f.streams.length

def roots (f : Forest) : List StreamId :=
  (f.streams.filter fun s => s.parent = none).map Stream.id

def children (f : Forest) (id : StreamId) : List StreamId :=
  (f.streams.filter fun s => s.parent = some id).map Stream.id

/-- The parent of a stream, if the stream has one that is not in the forest. -/
def missingParent? (f : Forest) (s : Stream) : Option StreamId :=
  s.parent.filter fun p => !f.contains p

theorem rooted_of_missingParent?_eq_none {f : Forest} {s : Stream}
    (h : f.missingParent? s = none) : ∀ p, s.parent = some p → p ∈ f.streams.map Stream.id := by
  intro p hp
  simpa [missingParent?, hp, contains, ids] using h

def insert (f : Forest) (s : Stream) : Except Fault Forest :=
  if hw : s.id = .wildcard then .error (.reservedId s.id)
  else if hd : s.id ∈ f.ids then .error (.duplicateStream s.id)
  else
    match hp : f.missingParent? s with
    | some parent => .error (.missingParent s.id parent)
    | none => .ok ⟨f.streams ++ [s], .insert f.grown hw hd (rooted_of_missingParent?_eq_none hp)⟩

/-- Trashes or restores the stream with the id; the rest of the forest stays. -/
def flag (id : StreamId) (trashed : Bool) (s : Stream) : Stream :=
  if s.id = id then { s with trashed } else s

theorem flag_id (id : StreamId) (trashed : Bool) (s : Stream) : (flag id trashed s).id = s.id := by
  unfold flag
  split <;> rfl

theorem flag_parent (id : StreamId) (trashed : Bool) (s : Stream) :
    (flag id trashed s).parent = s.parent := by
  unfold flag
  split <;> rfl

theorem Grown.map_flag {streams : List Stream} (h : Grown streams) (id : StreamId)
    (trashed : Bool) : Grown (streams.map (flag id trashed)) := by
  have hids (ss : List Stream) : (ss.map (flag id trashed)).map Stream.id = ss.map Stream.id := by
    simp [flag_id]
  induction h with
  | empty => exact .empty
  | insert _ proper fresh rooted ih =>
    rw [List.map_append]
    refine .insert ih ?_ ?_ ?_
    · rwa [flag_id]
    · rwa [flag_id, hids]
    · intro p hp
      rw [flag_parent] at hp
      rw [hids]
      exact rooted p hp

/-- Nothing if there is no such stream. -/
def setTrashed? (f : Forest) (id : StreamId) (trashed : Bool) : Option Forest :=
  if f.contains id then some ⟨f.streams.map (flag id trashed), f.grown.map_flag id trashed⟩
  else none

end Forest
end StreamScope
