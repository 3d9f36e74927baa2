import StreamScope.Forest.Index
import StreamScope.Proofs.Forest.Building
import StreamScope.Proofs.Forest.Nearest

/-!
Tables in agreement with a forest. The tables of streams, children and roots are
written one by one, but every command leaves those of a forest: it stores what
the forest would store, answers as the forest would, and when it is refused or
has nothing to do it has written nothing. Whatever is asked of the tables from
the empty ones on, they stay coherent, and a store answers from them as from the
forest.
-/

namespace StreamScope.Forest

open Lineage Outcome

/-! ## Calls on a forest -/

/-- The forest after a call. A stream without a place in it is left out, and a state that is asked
for an unknown stream changes nothing. -/
def call (f : Forest) : Index.Call → Forest
  | .insert s => (f.insert s).toOption.getD f
  | .setTrashed id trashed => (f.setTrashed? id trashed).getD f

/-- The forest after calls one after the other. -/
def run (f : Forest) (calls : List Index.Call) : Forest := calls.foldl call f

/-- Whether the call asks for the stream to be trashed, if it asks for either. -/
def Index.Call.asked? (id : StreamId) : Index.Call → Option Bool
  | .insert _ => none
  | .setTrashed id' trashed => if id = id' then some trashed else none

/-- The stream in the state that was asked for last. -/
def settled (calls : List Index.Call) (s : Stream) : Stream :=
  { s with trashed := ((calls.filterMap (Index.Call.asked? s.id)).getLast?).getD s.trashed }

theorem settled_cons (c : Index.Call) (calls : List Index.Call) (s : Stream) :
    settled (c :: calls) s =
      settled calls { s with trashed := (c.asked? s.id).getD s.trashed } := by
  cases hc : c.asked? s.id with
  | none => simp [settled, hc]
  | some trashed => simp [settled, hc, List.getLast?_cons]

theorem streams_call_insert (f : Forest) (t : Stream) :
    f.streams <+: (f.call (.insert t)).streams := by
  rw [call]
  cases hinsert : f.insert t with
  | error fault => exact List.prefix_rfl
  | ok g => exact ⟨[t], (streams_of_insert hinsert).symm⟩

theorem streams_call_setTrashed (f : Forest) (id : StreamId) (trashed : Bool) :
    (f.call (.setTrashed id trashed)).streams = f.streams.map (flag id trashed) := by
  rw [call, setTrashed?]
  split
  case isTrue => rfl
  case isFalse hunknown =>
    have hkept : ∀ s ∈ f.streams, flag id trashed s = s := fun s hs => by
      have hne : s.id ≠ id := fun heq => hunknown (by simpa [contains] using heq ▸ id_mem_ids hs)
      simp [flag, hne]
    rw [List.map_congr_left hkept, List.map_id']
    rfl

/-- A call keeps each stream, under its parent and in the state that the call asks for. -/
theorem mem_call_of_mem {f : Forest} {s : Stream} (hs : s ∈ f.streams) (c : Index.Call) :
    { s with trashed := (c.asked? s.id).getD s.trashed } ∈ (f.call c).streams := by
  cases c with
  | insert t => exact (f.streams_call_insert t).subset hs
  | setTrashed id trashed =>
    rw [streams_call_setTrashed, List.mem_map]
    refine ⟨s, hs, ?_⟩
    by_cases hid : s.id = id <;> simp [flag, Index.Call.asked?, hid]

/-- Through all calls a stream keeps its parent, and it has the state that was asked for last. -/
theorem settled_mem_run {f : Forest} {s : Stream} (hs : s ∈ f.streams)
    (calls : List Index.Call) : settled calls s ∈ (f.run calls).streams := by
  induction calls generalizing f s with
  | nil => exact hs
  | cons c calls ih =>
    rw [settled_cons]
    exact ih (mem_call_of_mem hs c)

namespace Index

variable {i j : Index} {f g : Forest} {s : Stream} {id p : StreamId}
  {table : List (StreamId × List StreamId)}

/-- The tables hold a forest: its streams, its roots, and the children of each of its streams. -/
structure Holds (i : Index) (f : Forest) : Prop where
  streams : i.streams = f.streams
  roots : i.roots = f.roots
  keys : (i.children.map Prod.fst).Nodup
  children : ∀ p, i.childrenOf p = f.children p

/-! ## The table of children -/

theorem lookup_cons (q : StreamId) (ids : List StreamId)
    (table : List (StreamId × List StreamId)) (p : StreamId) :
    ((q, ids) :: table).lookup p = if q = p then some ids else table.lookup p := by
  rw [List.lookup_cons]
  by_cases h : q = p
  · simp [h]
  · simp [h, beq_eq_false_iff_ne.mpr (Ne.symm h)]

theorem lookup_putChild (parent child : StreamId) (table : List (StreamId × List StreamId))
    (p : StreamId) : ((putChild parent child table).lookup p).getD [] =
      (table.lookup p).getD [] ++ if parent = p then [child] else [] := by
  induction table with
  | nil =>
    rw [putChild, lookup_cons]
    split <;> rfl
  | cons entry table ih =>
    obtain ⟨q, ids⟩ := entry
    rw [putChild, lookup_cons]
    split
    case isTrue h =>
      rw [lookup_cons, h]
      split <;> simp
    case isFalse h =>
      rw [lookup_cons]
      split
      case isTrue hq => simp [← hq, Ne.symm h]
      case isFalse => exact ih

theorem keys_putChild (parent child : StreamId) (table : List (StreamId × List StreamId)) :
    (putChild parent child table).map Prod.fst =
      if parent ∈ table.map Prod.fst then table.map Prod.fst
      else table.map Prod.fst ++ [parent] := by
  induction table with
  | nil => simp [putChild]
  | cons entry table ih =>
    obtain ⟨q, ids⟩ := entry
    unfold putChild
    split
    case isTrue h => simp [h]
    case isFalse h =>
      rw [List.map_cons, ih]
      by_cases hin : parent ∈ table.map Prod.fst
      · simp [hin]
      · simp [hin, Ne.symm h]

theorem nodup_keys_putChild (parent child : StreamId) (h : (table.map Prod.fst).Nodup) :
    ((putChild parent child table).map Prod.fst).Nodup := by
  rw [keys_putChild]
  split
  case isTrue => exact h
  case isFalse hnew => exact h.append (List.nodup_singleton _) (by simpa using hnew)

/-- The entry of a key, where no key has two. -/
theorem lookup_eq_some_iff (h : (table.map Prod.fst).Nodup) (p : StreamId)
    (ids : List StreamId) : table.lookup p = some ids ↔ (p, ids) ∈ table := by
  induction table with
  | nil => simp
  | cons entry table ih =>
    obtain ⟨q, ids'⟩ := entry
    obtain ⟨hnew, hrest⟩ := List.nodup_cons.mp h
    rw [lookup_cons]
    split
    case isTrue hq =>
      subst hq
      have hout : (q, ids) ∉ table := fun hin => hnew (List.mem_map.mpr ⟨(q, ids), hin, rfl⟩)
      simp [hout, eq_comm]
    case isFalse hq => simp [ih hrest, Ne.symm hq]

theorem mem_childrenOf_iff (h : (i.children.map Prod.fst).Nodup) (p c : StreamId) :
    c ∈ i.childrenOf p ↔ ∃ ids, (p, ids) ∈ i.children ∧ c ∈ ids := by
  simp only [← lookup_eq_some_iff h, childrenOf]
  cases i.children.lookup p <;> simp

/-! ## Commands -/

section

variable {α β : Type}

@[simp] theorem exec_pure (i : Index) (a : α) : i.exec (pure a) = (.ok a, i) := rfl

@[simp] theorem exec_throw (i : Index) (fault : Fault) :
    i.exec (throw fault : Update α) = (.error fault, i) := rfl

@[simp] theorem exec_get (i : Index) : i.exec get = (.ok i, i) := rfl

@[simp] theorem exec_set (i j : Index) : i.exec (set j) = (.ok ⟨⟩, j) := rfl

@[simp] theorem exec_modify (i : Index) (g : Index → Index) :
    i.exec (modify g) = (.ok ⟨⟩, g i) := rfl

@[simp] theorem exec_bind (i : Index) (u : Update α) (k : α → Update β) :
    i.exec (u >>= k) =
      match i.exec u with
      | (.ok a, j) => j.exec (k a)
      | (.error fault, j) => (.error fault, j) := by
  unfold exec
  rw [ExceptT.run_bind, StateT.run_bind]
  rcases u.run.run i with ⟨answer, j⟩
  cases answer <;> rfl

@[simp] theorem exec_ite (i : Index) (c : Prop) [Decidable c] (u v : Update α) :
    i.exec (if c then u else v) = if c then i.exec u else i.exec v := by
  split <;> rfl

end

/-- The tables after a stream was stored that nothing refused. -/
def stored (i : Index) (s : Stream) : Index where
  streams := putStream s i.streams
  children := (s.parent.map fun p => putChild p s.id i.children).getD i.children
  roots := if s.parent = none then i.roots ++ [s.id] else i.roots

theorem exec_insert (i : Index) (s : Stream) : i.exec (insert s) =
    if s.id = .wildcard then (.error (.reservedId s.id), i)
    else if i.contains s.id then (.error (.duplicateStream s.id), i)
    else
      match s.parent.filter fun p => !i.contains p with
      | some p => (.error (.missingParent s.id p), i)
      | none => (.ok (), i.stored s) := by
  unfold insert
  cases hp : s.parent with
  | none => simp [stored, hp]
  | some p => cases hin : i.contains p <;> simp [stored, hp, hin, Option.filter]

theorem exec_setTrashed (i : Index) (id : StreamId) (trashed : Bool) :
    i.exec (setTrashed id trashed) =
      if i.contains id then (.ok true, { i with streams := i.streams.map (flag id trashed) })
      else (.ok false, i) := by
  simp only [setTrashed, exec_bind, exec_get, exec_ite, exec_set, exec_pure]

namespace Holds

theorem empty : Holds {} Forest.empty := ⟨rfl, rfl, List.nodup_nil, fun _ => rfl⟩

theorem ids (h : i.Holds f) : i.ids = f.ids := congrArg (List.map Stream.id) h.streams

theorem contains (h : i.Holds f) (id : StreamId) : i.contains id = f.contains id := by
  simp [Index.contains, Forest.contains, h.ids]

theorem missingParent? (h : i.Holds f) (s : Stream) :
    (s.parent.filter fun p => !i.contains p) = f.missingParent? s := by
  simp only [Forest.missingParent?, h.contains]

theorem stored (h : i.Holds f) (hfresh : s.id ∉ f.ids) (hg : g.streams = f.streams ++ [s]) :
    (i.stored s).Holds g where
  streams := by
    have hnew : s.id ∉ f.streams.map Stream.id := hfresh
    simp only [Index.stored, putStream, h.streams, if_neg hnew, hg]
  roots := by
    rw [roots_append hg, ← h.roots]
    by_cases hp : s.parent = none <;> simp [Index.stored, hp]
  keys := by
    cases hp : s.parent with
    | none => simpa [Index.stored, hp] using h.keys
    | some parent => simpa [Index.stored, hp] using nodup_keys_putChild parent s.id h.keys
  children p := by
    rw [children_append hg, ← h.children]
    cases hp : s.parent with
    | none => simp [Index.stored, childrenOf, hp]
    | some parent => simp [Index.stored, childrenOf, hp, lookup_putChild]

/-- The tables refuse a stream as the forest does, untouched, or store it as the forest does. -/
theorem insert (h : i.Holds f) (s : Stream) :
    (∃ g, f.insert s = .ok g ∧ i.exec (Index.insert s) = (.ok (), i.stored s) ∧
      (i.stored s).Holds g) ∨
    ∃ fault, f.insert s = .error fault ∧ i.exec (Index.insert s) = (.error fault, i) := by
  rw [exec_insert, h.missingParent? s, h.contains]
  unfold Forest.insert
  split
  case isTrue => exact .inr ⟨_, rfl, rfl⟩
  case isFalse =>
    by_cases hin : s.id ∈ f.ids
    · exact .inr ⟨.duplicateStream s.id, by simp [hin], by simp [Forest.contains, hin]⟩
    · rw [dif_neg hin, if_neg (by simpa [Forest.contains] using hin)]
      split
      case h_1 p hp => exact .inr ⟨_, rfl, by rw [hp]⟩
      case h_2 hp => exact .inl ⟨_, rfl, by rw [hp], h.stored hin rfl⟩

theorem setTrashed (h : i.Holds f) (id : StreamId) (trashed : Bool) :
    (∃ g, f.setTrashed? id trashed = some g ∧
      ∃ j, i.exec (Index.setTrashed id trashed) = (.ok true, j) ∧ j.ids = i.ids ∧ j.Holds g) ∨
    f.setTrashed? id trashed = none ∧
      i.exec (Index.setTrashed id trashed) = (.ok false, i) := by
  rw [exec_setTrashed, h.contains]
  unfold Forest.setTrashed?
  split
  case isFalse => exact .inr ⟨rfl, rfl⟩
  case isTrue =>
    refine .inl ⟨_, rfl, _, rfl, ?_, ?_⟩
    · simp [Index.ids, flag_id]
    · refine ⟨by simp [h.streams], ?_, h.keys, fun p => ?_⟩
      · rw [h.roots]
        simp [Forest.roots, List.filter_map, Function.comp_def, flag_id, flag_parent]
      · change i.childrenOf p = _
        rw [h.children]
        simp [Forest.children, List.filter_map, Function.comp_def, flag_id, flag_parent]

end Holds

/-! ## Building -/

/-- Tables are built as a forest is: with its answer, and unless that refuses, into its tables. -/
inductive Built {α : Type} : Except Fault (Forest × α) → Except Fault α × Index → Prop
  | ok {f : Forest} {a : α} {i : Index} (holds : i.Holds f) : Built (.ok (f, a)) (.ok a, i)
  | refused (fault : Fault) (i : Index) : Built (.error fault) (.error fault, i)

theorem Holds.insertReady (h : i.Holds f) (pending : List Stream) :
    Built (f.insertReady pending) (i.exec (Index.insertReady pending)) := by
  induction pending generalizing f i with
  | nil => exact .ok h
  | cons s rest ih =>
    have hready : s.parent.all i.contains = (f.missingParent? s).isNone := by
      rw [← h.missingParent? s]
      cases hp : s.parent with
      | none => rfl
      | some p => cases hin : i.contains p <;> simp [hin, Option.filter]
    simp only [Index.insertReady, Forest.insertReady, exec_bind, exec_get, exec_ite, hready]
    cases hmissing : f.missingParent? s with
    | none =>
      rcases h.insert s with hstored | hrefused
      · obtain ⟨g, hg, hrun, hholds⟩ := hstored
        simpa [hg, hrun, bind, Except.bind] using ih hholds
      · obtain ⟨fault, hg, hrun⟩ := hrefused
        simpa [hg, hrun, bind, Except.bind] using Built.refused fault i
    | some p =>
      have hrest := ih h
      generalize f.insertReady rest = answer at hrest
      generalize i.exec (Index.insertReady rest) = result at hrest
      cases hrest with
      | ok holds => exact .ok holds
      | refused fault j => exact .refused fault j

theorem Holds.insertAll (h : i.Holds f) (pending : List Stream) :
    Built ((f.insertAll pending).map fun g => (g, ())) (i.exec (Index.insertAll pending)) := by
  -- a pass that stores some stream leaves fewer for the next
  induction hn : pending.length using Nat.strongRecOn generalizing f i pending with
  | ind n ih =>
    have hpass := h.insertReady pending
    rw [Index.insertAll, Forest.insertAll, exec_bind]
    generalize f.insertReady pending = answer at hpass
    generalize i.exec (Index.insertReady pending) = result at hpass
    cases hpass with
    | refused fault j => exact .refused fault j
    | @ok g deferred j holds =>
      cases deferred with
      | nil => exact .ok holds
      | cons first rest =>
        simp only [exec_ite]
        split
        case isTrue hless => exact ih _ (hn ▸ hless) holds _ rfl
        case isFalse => exact .refused _ j

/-- Without streams the empty tables are built. -/
theorem ofStreams_nil : ofStreams [] = .ok {} := by
  simp [ofStreams, Index.insertAll, Index.insertReady]

/-- Streams are refused as for a forest, or the tables are those of the forest. -/
theorem ofStreams_agrees (streams : List Stream) :
    (∃ f i, Forest.ofStreams streams = .ok f ∧ ofStreams streams = .ok i ∧ i.Holds f) ∨
      ∃ fault, Forest.ofStreams streams = .error fault ∧ ofStreams streams = .error fault := by
  have hbuilt := Holds.empty.insertAll streams
  change Built ((Forest.ofStreams streams).map _) _ at hbuilt
  unfold ofStreams
  generalize exec {} (Index.insertAll streams) = result at hbuilt ⊢
  generalize Forest.ofStreams streams = answer at hbuilt ⊢
  cases answer with
  | error fault =>
    cases hbuilt
    exact .inr ⟨fault, rfl, rfl⟩
  | ok f =>
    cases hbuilt with
    | @ok _ _ i holds => exact .inl ⟨f, i, rfl, rfl, holds⟩

/-- Tables that are built from streams hold exactly these. -/
theorem exists_holds_of_ofStreams {streams : List Stream} (h : ofStreams streams = .ok i) :
    ∃ f, Forest.ofStreams streams = .ok f ∧ i.Holds f := by
  rcases ofStreams_agrees streams with ⟨f, j, hf, hj, hholds⟩ | ⟨fault, -, hfault⟩
  · obtain rfl := Except.ok.inj (hj.symm.trans h)
    exact ⟨f, hf, hholds⟩
  · rw [h] at hfault
    cases hfault

theorem ofStreams_eq_error_iff (streams : List Stream) (fault : Fault) :
    ofStreams streams = .error fault ↔ Forest.ofStreams streams = .error fault := by
  rcases ofStreams_agrees streams with ⟨f, i, hf, hi, -⟩ | ⟨other, hforest, htables⟩
  · simp [hf, hi]
  · rw [hforest, htables, Except.error.injEq, Except.error.injEq]

theorem exists_ofStreams_eq_ok_iff_forest (streams : List Stream) :
    (∃ i, ofStreams streams = .ok i) ↔ ∃ f, Forest.ofStreams streams = .ok f := by
  rcases ofStreams_agrees streams with ⟨f, i, hf, hi, -⟩ | ⟨fault, hforest, htables⟩
  · simp [hf, hi]
  · simp [hforest, htables]

/-! ## Calls -/

/-- What the tables have room for: a new stream under a stream that is there, and any change of a
stream that is there. -/
def Call.Fits (i : Index) : Call → Prop
  | .insert s => s.id ≠ .wildcard ∧ s.id ∉ i.ids ∧ ∀ p, s.parent = some p → p ∈ i.ids
  | .setTrashed id _ => id ∈ i.ids

theorem call_eq_true_iff (i : Index) (c : Call) : (i.call c).1 = .ok true ↔ c.Fits i := by
  cases c with
  | insert s =>
    have hplaced : (s.parent.filter fun p => !i.contains p) = none ↔
        ∀ p, s.parent = some p → p ∈ i.ids := by
      cases s.parent <;> simp [contains]
    simp only [call, Call.update, exec_bind, exec_insert, exec_pure, Call.Fits, ← hplaced]
    by_cases hw : s.id = .wildcard
    · simp [hw]
    · by_cases hin : s.id ∈ i.ids
      · simp [hw, hin, contains]
      · cases hp : s.parent.filter fun p => !i.contains p <;> simp [hw, hin, contains]
  | setTrashed id trashed =>
    by_cases hin : id ∈ i.ids <;>
      simp [call, Call.update, exec_setTrashed, Call.Fits, contains, hin]

/-- The ids that a call with the answer has stored: that of its stream, if it is an insert that was
not refused. -/
def Call.inserted : Call → Except Fault Bool → List StreamId
  | .insert s, .ok _ => [s.id]
  | _, _ => []

/-- The ids of the inserts that are not refused among calls one after the other. -/
def inserted (i : Index) : List Call → List StreamId
  | [] => []
  | c :: calls => c.inserted (i.call c).1 ++ inserted (i.call c).2 calls

/-- A call leaves the tables of the forest after the call, with its own stream besides the old ones if
it is an insert that succeeds, and unless it answers true it leaves the tables as they were. -/
theorem Holds.call (h : i.Holds f) (c : Call) :
    (i.call c).2.Holds (f.call c) ∧ (i.call c).2.ids = i.ids ++ c.inserted (i.call c).1 ∧
      ((i.call c).1 = .ok true ∨ (i.call c).2 = i) := by
  cases c with
  | insert s =>
    rcases h.insert s with hstored | hrefused
    · obtain ⟨g, hg, hrun, hholds⟩ := hstored
      have hafter : f.call (.insert s) = g := by rw [Forest.call, hg]; rfl
      have hcall : i.call (.insert s) = (.ok true, i.stored s) := by
        simp only [Index.call, Call.update, exec_bind, hrun, exec_pure]
      have hids : (i.stored s).ids = i.ids ++ [s.id] := by
        simp [hholds.ids, h.ids, Forest.ids, streams_of_insert hg]
      rw [hcall, hafter]
      exact ⟨hholds, hids, .inl rfl⟩
    · obtain ⟨fault, hf, hrun⟩ := hrefused
      have hafter : f.call (.insert s) = f := by rw [Forest.call, hf]; rfl
      have hcall : i.call (.insert s) = (.error fault, i) := by
        simp only [Index.call, Call.update, exec_bind, hrun]
      rw [hcall, hafter]
      exact ⟨h, (List.append_nil _).symm, .inr rfl⟩
  | setTrashed id trashed =>
    rcases h.setTrashed id trashed with hset | hunknown
    · obtain ⟨g, hg, j, hrun, hids, hholds⟩ := hset
      have hafter : f.call (.setTrashed id trashed) = g := by rw [Forest.call, hg]; rfl
      have hcall : i.call (.setTrashed id trashed) = (.ok true, j) := hrun
      rw [hcall, hafter]
      exact ⟨hholds, hids.trans (List.append_nil _).symm, .inl rfl⟩
    · obtain ⟨hf, hrun⟩ := hunknown
      have hafter : f.call (.setTrashed id trashed) = f := by rw [Forest.call, hf]; rfl
      have hcall : i.call (.setTrashed id trashed) = (.ok false, i) := hrun
      rw [hcall, hafter]
      exact ⟨h, (List.append_nil _).symm, .inr rfl⟩

/-- Calls leave the tables of the forest after the same calls. -/
theorem Holds.run (h : i.Holds f) (calls : List Call) :
    (i.run calls).Holds (f.run calls) ∧ (i.run calls).ids = i.ids ++ i.inserted calls := by
  induction calls generalizing i f with
  | nil => exact ⟨h, (List.append_nil _).symm⟩
  | cons c calls ih =>
    obtain ⟨hholds, hids, -⟩ := h.call c
    obtain ⟨hend, hmore⟩ := ih hholds
    refine ⟨hend, hmore.trans ?_⟩
    rw [hids, inserted, List.append_assoc]

/-! ## Coherence -/

/-- The three tables tell the same forest. -/
structure Coherent (i : Index) : Prop where
  distinct : i.ids.Nodup
  proper : .wildcard ∉ i.ids
  /-- Each root is listed once. -/
  roots_once : i.roots.Nodup
  mem_roots : ∀ id, id ∈ i.roots ↔ ∃ s ∈ i.streams, s.id = id ∧ s.parent = none
  /-- A parent has one entry, and in it each child is listed once. -/
  entries_once : (i.children.map Prod.fst).Nodup
  children_once : ∀ p children, (p, children) ∈ i.children → children.Nodup
  mem_children : ∀ p id, (∃ children, (p, children) ∈ i.children ∧ id ∈ children) ↔
    ∃ s ∈ i.streams, s.id = id ∧ s.parent = some p
  parents_present : ∀ s ∈ i.streams, ∀ p, s.parent = some p → p ∈ i.ids
  /-- The way up from each stream ends at a root and passes no stream twice. -/
  rooted : ∀ id ∈ i.ids, ∃ below top, Chain i.streams id (below ++ [top]) ∧
    (below ++ [top]).Nodup ∧ top ∈ i.roots

theorem Holds.coherent (h : i.Holds f) : i.Coherent where
  distinct := h.ids ▸ f.grown.nodup
  proper := h.ids ▸ f.wildcard_notMem_ids
  roots_once := h.roots ▸ f.grown.nodup.sublist (List.filter_sublist.map _)
  mem_roots id := by
    rw [h.roots, mem_roots_iff, h.streams]
    simp only [and_comm]
  entries_once := h.keys
  children_once p children hentry := by
    have hlist : i.childrenOf p = children := by
      simp [childrenOf, (lookup_eq_some_iff h.keys p children).mpr hentry]
    rw [← hlist, h.children]
    exact f.grown.nodup.sublist (List.filter_sublist.map _)
  mem_children p id := by
    rw [← mem_childrenOf_iff h.keys, h.children, mem_children_iff, h.streams]
    simp only [and_comm]
  parents_present s hs p hp := by
    rw [h.ids]
    rw [h.streams] at hs
    exact f.grown.parent_listed s hs p hp
  rooted id hid := by
    rw [h.ids] at hid
    have hchain := chain_wayUp hid
    obtain ⟨below, top, hway, htop⟩ := exists_root_of_chain hchain
    rw [h.streams, h.roots]
    exact ⟨below, top, hway ▸ hchain, hway ▸ hchain.nodup, htop⟩

/-- Whatever is asked of tables that were built from streams, or of the empty ones, they stay
coherent and hold the ids of the streams and of the inserts that succeeded; a call succeeds if it fits
the tables, and one that is refused or answers false changes nothing. The tables are those of the
forest after the same calls, where each stream stays under its parent in the state last asked for. -/
theorem coherent_along_run {streams : List Stream} (h : ofStreams streams = .ok i)
    (calls : List Call) : (i.run calls).Coherent ∧
      (i.run calls).ids.Perm (streams.map Stream.id ++ i.inserted calls) ∧
      (∀ c, (((i.run calls).call c).1 = .ok true ↔ c.Fits (i.run calls)) ∧
        (((i.run calls).call c).1 ≠ .ok true → ((i.run calls).call c).2 = i.run calls)) ∧
      (∃ f, Forest.ofStreams streams = .ok f ∧ (i.run calls).Holds (f.run calls)) ∧
      ∀ more, ∀ s ∈ (i.run calls).streams, settled more s ∈ ((i.run calls).run more).streams := by
  obtain ⟨f, hf, hholds⟩ := exists_holds_of_ofStreams h
  obtain ⟨hg, hids⟩ := hholds.run calls
  refine ⟨hg.coherent, ?_, fun c => ⟨call_eq_true_iff _ c, (hg.call c).2.2.resolve_left⟩,
    ⟨f, hf, hg⟩, fun more s hs => ?_⟩
  · rw [hids, hholds.ids]
    exact ((perm_of_ofStreams hf).map Stream.id).append_right _
  · rw [hg.streams] at hs
    rw [(hg.run more).1.streams]
    exact settled_mem_run hs more

/-- The tables of a stream and the one below it. -/
def shelfIndex : Index where
  streams := [⟨⟨"shelf"⟩, none, false⟩, ⟨⟨"book"⟩, some ⟨"shelf"⟩, false⟩]
  children := [(⟨"shelf"⟩, [⟨"book"⟩])]
  roots := [⟨"shelf"⟩]

def shelfStreams : List Stream :=
  [⟨⟨"book"⟩, some ⟨"shelf"⟩, false⟩, ⟨⟨"shelf"⟩, none, false⟩]

/-- The tables after the first pass over the two streams. -/
def bareShelf : Index where
  streams := [⟨⟨"shelf"⟩, none, false⟩]
  roots := [⟨"shelf"⟩]

theorem shelf_ofStreams : ofStreams shelfStreams = .ok shelfIndex := by
  have hfirst : exec {} (insertReady shelfStreams) =
      (.ok [⟨⟨"book"⟩, some ⟨"shelf"⟩, false⟩], bareShelf) := rfl
  have hsecond : exec bareShelf (insertReady [⟨⟨"book"⟩, some ⟨"shelf"⟩, false⟩]) =
      (.ok [], shelfIndex) := rfl
  have hrest : exec bareShelf (insertAll [⟨⟨"book"⟩, some ⟨"shelf"⟩, false⟩]) =
      (.ok (), shelfIndex) := by
    rw [insertAll, exec_bind, hsecond]
    rfl
  have hall : exec {} (insertAll shelfStreams) = (.ok (), shelfIndex) := by
    rw [insertAll, exec_bind, hfirst]
    exact hrest
  rw [ofStreams, hall]

/-- A page is stored, a stream below itself is refused, and an unknown one is not trashed. -/
def shelfCalls : List Call :=
  [.insert ⟨⟨"page"⟩, some ⟨"book"⟩, false⟩, .insert ⟨⟨"loop"⟩, some ⟨"loop"⟩, false⟩,
    .setTrashed ⟨"loop"⟩ true]

/-- The page is trashed, then restored, and the shelf is trashed. -/
def tidyCalls : List Call :=
  [.setTrashed ⟨"page"⟩ true, .setTrashed ⟨"page"⟩ false, .setTrashed ⟨"shelf"⟩ true]

theorem coherent_along_run_shelf : ofStreams shelfStreams = .ok shelfIndex ∧
    shelfIndex.inserted shelfCalls = [⟨"page"⟩] ∧ (shelfIndex.run shelfCalls).Coherent ∧
    (shelfIndex.run shelfCalls).ids.Perm
      (shelfStreams.map Stream.id ++ shelfIndex.inserted shelfCalls) ∧
    (∀ c, (((shelfIndex.run shelfCalls).call c).1 = .ok true ↔
        c.Fits (shelfIndex.run shelfCalls)) ∧
      (((shelfIndex.run shelfCalls).call c).1 ≠ .ok true →
        ((shelfIndex.run shelfCalls).call c).2 = shelfIndex.run shelfCalls)) ∧
    (∃ f, Forest.ofStreams shelfStreams = .ok f ∧
      (shelfIndex.run shelfCalls).Holds (f.run shelfCalls)) ∧
    ⟨⟨"page"⟩, some ⟨"book"⟩, false⟩ ∈ ((shelfIndex.run shelfCalls).run tidyCalls).streams ∧
    ⟨⟨"shelf"⟩, none, true⟩ ∈ ((shelfIndex.run shelfCalls).run tidyCalls).streams := by
  obtain ⟨hcoherent, hids, hcalls, hforest, hsettled⟩ :=
    coherent_along_run shelf_ofStreams shelfCalls
  refine ⟨shelf_ofStreams, rfl, hcoherent, hids, hcalls, hforest, ?_, ?_⟩
  · exact hsettled tidyCalls ⟨⟨"page"⟩, some ⟨"book"⟩, false⟩ (by decide)
  · exact hsettled tidyCalls ⟨⟨"shelf"⟩, none, false⟩ (by decide)

/-! ## Answers -/

theorem Holds.visible? (h : i.Holds f) (excluded : List StreamId) (state : StreamState)
    (id : StreamId) : i.visible? excluded state id = f.visible? excluded state id := by
  simp only [Index.visible?, Forest.visible?, Index.find?, Forest.find?, h.streams]

theorem Holds.walk (h : i.Holds f) (excluded : List StreamId) (state : StreamState)
    (seen stack : List StreamId) :
    i.walk excluded state seen stack = f.walk excluded state seen stack := by
  fun_induction i.walk excluded state seen stack with
  | case1 => rw [Forest.walk]
  | case2 seen id stack hseen ih => rw [Forest.walk, dif_pos hseen, ih]
  | case3 seen id stack hseen hpruned ih =>
    rw [h.visible?] at hpruned
    rw [Forest.walk, dif_neg hseen, ih]
    split
    case h_1 => rfl
    case h_2 t hshown => simp [hpruned] at hshown
  | case4 seen id stack hseen s hshown ih =>
    rw [h.visible?] at hshown
    rw [Forest.walk, dif_neg hseen, ih, h.children]
    split
    case h_1 hpruned => simp [hshown] at hpruned
    case h_2 => rfl

/-- A store answers from the tables as it would from the forest. -/
theorem Holds.backend (h : i.Holds f) : i.backend = Backend.ofForest f := by
  have hexpand (id : StreamId) (excluded : List StreamId) (state : StreamState) :
      i.expand id excluded state = f.expand id excluded state := by
    simp only [Index.expand, Forest.expand, h.walk, h.roots, h.contains]
  simp only [Index.backend, Backend.ofForest, hexpand, Index.find?, Forest.find?, h.streams]

end Index
end StreamScope.Forest
