import StreamScope.Forest.Basic

/-!
A forest from streams in any order. Pass after pass inserts the streams whose
parent is already there; when a pass inserts none, the streams that are left
either lie on or below a loop of parents, or lack a parent altogether.
-/

namespace StreamScope.Forest

/-- One pass: inserts what can be inserted and keeps the rest in order. -/
def insertReady (f : Forest) : List Stream → Except Fault (Forest × List Stream)
  | [] => .ok (f, [])
  | s :: rest =>
      match f.missingParent? s with
      | none => do
          let f ← f.insert s
          insertReady f rest
      | some _ => do
          let (f, deferred) ← insertReady f rest
          pure (f, s :: deferred)

/-- The stream at which the parents of some stuck stream lead back, if there is one. Of streams
with one id the last counts. -/
def loop? (stuck : List Stream) : Option StreamId :=
  stuck.findSome? fun s =>
    match Lineage.ancestors stuck.reverse s.id with
    | .error id => some id
    | .ok _ => none

/-- Why streams are stuck: a loop among them, or else the first lacks its parent. -/
def diagnose (first : Stream) (rest : List Stream) : Fault :=
  match loop? (first :: rest) with
  | some id => .cycle id
  | none => .missingParent first.id (first.parent.getD first.id)

/-- Inserts the pending streams, each after its parent. -/
def insertAll (f : Forest) (pending : List Stream) : Except Fault Forest :=
  match insertReady f pending with
  | .error fault => .error fault
  | .ok (f, []) => .ok f
  | .ok (f, first :: rest) =>
      if (first :: rest).length < pending.length then insertAll f (first :: rest)
      else .error (diagnose first rest)
termination_by pending.length

def ofStreams (streams : List Stream) : Except Fault Forest := insertAll empty streams

end StreamScope.Forest
