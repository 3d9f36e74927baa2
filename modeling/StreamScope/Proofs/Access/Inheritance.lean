import StreamScope.Proofs.Access.Entries
import StreamScope.Proofs.Forest.Coherence
import StreamScope.Proofs.Forest.Rooted

/-!
Levels handed down. A stream with an entry of its own has the level of this
entry, and any other has the level of its parent; a root without an entry has
that of the whole store. So a stream takes its level from the nearest stream
above it that has an entry, and what changes the entry of a stream changes the
levels of those that take theirs from it, and no others.
-/

namespace StreamScope

open Lineage Relation

namespace PermissionEntry

/-- Entries that all denote one stream give no level to another. -/
theorem levelAmong_eq_none {k : Conventions} {entries : List PermissionEntry} {store : StoreId}
    {p id : StreamId} (h : ∀ e ∈ entries, e.denoted k = (store, p)) (hid : id ≠ p) :
    levelAmong k entries store id = none := by
  rw [levelAmong, Option.map_eq_none_iff, List.find?_eq_none]
  intro e he hdenotes
  have hsame := (of_decide_eq_true hdenotes).symm.trans (h e he)
  exact hid (Prod.mk.inj hsame).2

end PermissionEntry

namespace Access

/-- Accesses with the same entries but for those on one stream have the same levels elsewhere. -/
theorem grantOf?_eq_of_replaced {k : Conventions} {a a' : Access} {store : StoreId}
    {p id : StreamId} {before old new after : List PermissionEntry}
    (hdenote : ∀ e ∈ old ++ new, e.denoted k = (store, p))
    (ha : a.permissions = before ++ old ++ after) (ha' : a'.permissions = before ++ new ++ after)
    (hid : id ≠ p) : a'.grantOf? k store id = a.grantOf? k store id := by
  have hold := PermissionEntry.levelAmong_eq_none
    (fun e he => hdenote e (List.mem_append_left new he)) hid
  have hnew := PermissionEntry.levelAmong_eq_none
    (fun e he => hdenote e (List.mem_append_right old he)) hid
  unfold grantOf?
  rw [ha, ha']
  simp only [PermissionEntry.levelAmong_append, hold, hnew]

end Access

namespace Caller

variable {k : Conventions} {a a' : Access} {c c' : Caller} {r : Registry} {store : StoreId}
  {f : Forest} {s : Stream} {d p : StreamId} {streams : List Stream}

/-- Parent links lead from the stream to the other, and neither it nor a stream between them has an
entry. -/
def InheritsFrom (k : Conventions) (a : Access) (store : StoreId) (streams : List Stream) :
    StreamId → StreamId → Prop :=
  ReflTransGen fun id parent => Linked streams id parent ∧ a.grantOf? k store id = none

theorem levelOf?_held (h : ofAccess k a = .ok c) (store : StoreId) (hd : d ≠ .wildcard) :
    (c.held store).levelOf? d = a.grantOf? k store d := by
  have hentry := (held_of_ofAccess h store).2.2 d
  rwa [StoreGrants.grantOf?, if_neg hd] at hentry

theorem storeWide_held (h : ofAccess k a = .ok c) (store : StoreId) :
    (c.held store).storeWide = a.grantOf? k store .wildcard := by
  have hentry := (held_of_ofAccess h store).2.2 .wildcard
  rwa [StoreGrants.grantOf?, if_pos rfl] at hentry

section

variable (h : ofAccess k a = .ok c) (hf : r.Holds store f) (hs : s ∈ f.streams)
include h hf hs

/-- The entry of a stream comes before whatever decides above it. -/
theorem level_of_chain_cons {above : List StreamId}
    (hchain : Chain f.streams s.id (s.id :: above)) :
    c.level r store s.id = .ok ((a.grantOf? k store s.id).or ((c.held store).decides above)) := by
  have hproper : s.id ≠ .wildcard := fun hw => f.wildcard_notMem_ids (hw ▸ Forest.id_mem_ids hs)
  have hown := levelOf?_held h store hproper
  have hfirst : [s.id].findSome? (c.held store).levelOf? = a.grantOf? k store s.id := by
    rw [List.findSome?_singleton, hown]
  rw [level_of_chain hf hchain, ← hfirst, ← StoreGrants.decides_append, List.singleton_append]

theorem level_of_entry {level : PermissionLevel} (hentry : a.grantOf? k store s.id = some level) :
    c.level r store s.id = .ok (some level) := by
  obtain ⟨chain, hchain⟩ := Forest.exists_chain (Forest.id_mem_ids hs)
  obtain ⟨above, rfl⟩ := hchain.eq_cons
  rw [level_of_chain_cons h hf hs hchain, hentry, Option.some_or]

theorem level_of_child {parent : StreamId} (hentry : a.grantOf? k store s.id = none)
    (hparent : s.parent = some parent) : c.level r store s.id = c.level r store parent := by
  obtain ⟨t, ht, rfl⟩ := List.mem_map.mp (f.grown.parent_listed s hs parent hparent)
  obtain ⟨chain, hchain⟩ := Forest.exists_chain (Forest.id_mem_ids ht)
  have hlink : Chain f.streams s.id (s.id :: chain) := .link (Forest.find?_id hs) hparent hchain
  rw [level_of_chain_cons h hf hs hlink, level_of_chain hf hchain, hentry, Option.none_or]

theorem level_of_root (hentry : a.grantOf? k store s.id = none) (hroot : s.parent = none) :
    c.level r store s.id = .ok (a.grantOf? k store .wildcard) := by
  have hchain : Chain f.streams s.id [s.id] := .last (Forest.find?_id hs) (by simp [hroot])
  rw [level_of_chain_cons h hf hs hchain, hentry, Option.none_or, ← storeWide_held h store]
  rfl

end

/-- A stream that takes its level from another has the level of that one, also where the other's
entry is a different one. -/
theorem level_of_inheritsFrom (h' : ofAccess k a' = .ok c') (hf : r.Holds store f)
    (hsame : ∀ id, id ≠ p → a'.grantOf? k store id = a.grantOf? k store id)
    (hinherits : InheritsFrom k a store f.streams d p) :
    c'.level r store d = c'.level r store p := by
  induction hinherits using ReflTransGen.head_induction_on with
  | refl => rfl
  | @head d parent hstep _ ih =>
    obtain ⟨⟨s, hs, rfl, hparent⟩, hentry⟩ := hstep
    by_cases hsp : s.id = p
    · rw [hsp]
    · rw [← hsame s.id hsp] at hentry
      rw [level_of_child h' hf hs hentry hparent, ih]

/-- A stream that does not take its level from the other keeps it. -/
theorem level_eq_of_not_inheritsFrom (h : ofAccess k a = .ok c) (h' : ofAccess k a' = .ok c')
    (hf : r.Holds store f) (hsame : ∀ id, id ≠ p → a'.grantOf? k store id = a.grantOf? k store id)
    (hp : p ≠ .wildcard) (hd : Rooted f.streams d)
    (hout : ¬ InheritsFrom k a store f.streams d p) :
    c'.level r store d = c.level r store d := by
  induction hd with
  | @root s hs hroot =>
    have hentry := hsame s.id fun heq => hout (heq ▸ .refl)
    cases hown : a.grantOf? k store s.id with
    | some level =>
      rw [level_of_entry h hf hs hown, level_of_entry h' hf hs (hentry.trans hown)]
    | none =>
      rw [level_of_root h hf hs hown hroot, level_of_root h' hf hs (hentry.trans hown) hroot,
        hsame .wildcard hp.symm]
  | @child s parent hs hparent _ ih =>
    have hentry := hsame s.id fun heq => hout (heq ▸ .refl)
    cases hown : a.grantOf? k store s.id with
    | some level =>
      rw [level_of_entry h hf hs hown, level_of_entry h' hf hs (hentry.trans hown)]
    | none =>
      rw [level_of_child h hf hs hown hparent, level_of_child h' hf hs (hentry.trans hown) hparent]
      exact ih fun habove => hout (.head ⟨⟨s, hs, rfl, hparent⟩, hown⟩ habove)

/-- In a store whose tables were built from streams and changed by calls, each stream has the level
of its own entry, or else of its parent, or else of the whole store. If the entries on one stream
are replaced by others on it, levels change only on streams that take theirs from it, and these
have its level before and after. -/
theorem level_handed_down {i : Forest.Index} (hi : Forest.Index.ofStreams streams = .ok i)
    (calls : List Forest.Index.Call) (hr : r.backend? store = some (i.run calls).backend)
    (h : ofAccess k a = .ok c) :
    (∀ s ∈ (i.run calls).streams, (∃ level, c.level r store s.id = .ok level) ∧
      (∀ level, a.grantOf? k store s.id = some level → c.level r store s.id = .ok (some level)) ∧
      (a.grantOf? k store s.id = none →
        (∀ parent, s.parent = some parent →
          c.level r store s.id = c.level r store parent) ∧
        (s.parent = none → c.level r store s.id = .ok (a.grantOf? k store .wildcard)))) ∧
    ∀ p before old new after a' c', p ≠ .wildcard →
      (∀ e ∈ old ++ new, e.denoted k = (store, p)) →
      a.permissions = before ++ old ++ after → a'.permissions = before ++ new ++ after →
      ofAccess k a' = .ok c' → ∀ s ∈ (i.run calls).streams,
        (c'.level r store s.id ≠ c.level r store s.id →
          InheritsFrom k a store (i.run calls).streams s.id p) ∧
        (InheritsFrom k a store (i.run calls).streams s.id p →
          c.level r store s.id = c.level r store p ∧
            c'.level r store s.id = c'.level r store p) := by
  obtain ⟨g, -, hholds⟩ := Forest.Index.exists_holds_of_ofStreams hi
  have hrun := (hholds.run calls).1
  have hf : r.Holds store (g.run calls) := hr.trans (congrArg some hrun.backend)
  rw [hrun.streams]
  refine ⟨fun s hs => ⟨?_, ?_, fun hentry => ⟨?_, ?_⟩⟩, ?_⟩
  · obtain ⟨chain, hchain⟩ := Forest.exists_chain (Forest.id_mem_ids hs)
    exact ⟨_, level_of_chain hf hchain⟩
  · exact fun level hentry => level_of_entry h hf hs hentry
  · exact fun parent hparent => level_of_child h hf hs hentry hparent
  · exact level_of_root h hf hs hentry
  · intro p before old new after a' c' hp hdenote ha ha' h' s hs
    have hsame (id : StreamId) (hid : id ≠ p) : a'.grantOf? k store id = a.grantOf? k store id :=
      Access.grantOf?_eq_of_replaced hdenote ha ha' hid
    refine ⟨fun hchanged => ?_, fun hinherits => ⟨?_, ?_⟩⟩
    · by_contra hout
      exact hchanged (level_eq_of_not_inheritsFrom h h' hf hsame hp ((g.run calls).grown.rooted s hs) hout)
    · exact level_of_inheritsFrom h hf (fun _ _ => rfl) hinherits
    · exact level_of_inheritsFrom h' hf hsame hinherits

def shelfRegistry : Registry :=
  ⟨[(⟨"local"⟩, (Forest.Index.shelfIndex.run Forest.Index.shelfCalls).backend)],
    List.nodup_singleton _⟩

/-- The page that the calls store in the book. -/
def shelfPage : Stream := ⟨⟨"page"⟩, some ⟨"book"⟩, false⟩

/-- An access that reads the shelf and what is below it. -/
def shelfAccess : Access := { id := "reader", permissions := [⟨⟨"shelf"⟩, .read⟩] }

def shelfCaller : Caller :=
  ⟨shelfAccess, [(⟨"local"⟩, { entries := [(⟨"shelf"⟩, .read)] })]⟩

/-- The same but for the book. -/
def bookAccess : Access :=
  { id := "reader", permissions := [⟨⟨"shelf"⟩, .read⟩, ⟨⟨"book"⟩, .denied⟩] }

def bookCaller : Caller :=
  ⟨bookAccess, [(⟨"local"⟩, { entries := [(⟨"shelf"⟩, .read), (⟨"book"⟩, .denied)] })]⟩

theorem level_handed_down_shelf :
    Forest.Index.ofStreams Forest.Index.shelfStreams = .ok Forest.Index.shelfIndex ∧
    shelfRegistry.backend? ⟨"local"⟩ =
      some (Forest.Index.shelfIndex.run Forest.Index.shelfCalls).backend ∧
    ofAccess .standard shelfAccess = .ok shelfCaller ∧
    ofAccess .standard bookAccess = .ok bookCaller ∧
    shelfCaller.level shelfRegistry ⟨"local"⟩ ⟨"shelf"⟩ = .ok (some .read) ∧
    shelfCaller.level shelfRegistry ⟨"local"⟩ ⟨"page"⟩ =
      shelfCaller.level shelfRegistry ⟨"local"⟩ ⟨"book"⟩ ∧
    bookCaller.level shelfRegistry ⟨"local"⟩ ⟨"page"⟩ =
      bookCaller.level shelfRegistry ⟨"local"⟩ ⟨"book"⟩ ∧
    bookCaller.level shelfRegistry ⟨"local"⟩ ⟨"shelf"⟩ =
      shelfCaller.level shelfRegistry ⟨"local"⟩ ⟨"shelf"⟩ := by
  have hr : shelfRegistry.backend? ⟨"local"⟩ =
      some (Forest.Index.shelfIndex.run Forest.Index.shelfCalls).backend := rfl
  have hshelf : ofAccess .standard shelfAccess = .ok shelfCaller := rfl
  have hbook : ofAccess .standard bookAccess = .ok bookCaller := rfl
  have hstreams : (Forest.Index.shelfIndex.run Forest.Index.shelfCalls).streams =
      Forest.Index.shelfIndex.streams ++ [shelfPage] := rfl
  obtain ⟨hlevels, hchanges⟩ :=
    level_handed_down Forest.Index.shelf_ofStreams Forest.Index.shelfCalls hr hshelf
  have hdenote : ∀ e ∈ [] ++ [⟨⟨"book"⟩, .denied⟩],
      PermissionEntry.denoted .standard e = (⟨"local"⟩, ⟨"book"⟩) := by
    decide +kernel
  have hlocal := hchanges ⟨"book"⟩ shelfAccess.permissions [] [⟨⟨"book"⟩, .denied⟩] [] bookAccess
    bookCaller (by decide) hdenote rfl rfl hbook
  rw [hstreams] at hlevels hlocal
  have hpage : InheritsFrom .standard shelfAccess ⟨"local"⟩
      (Forest.Index.shelfIndex.streams ++ [shelfPage]) ⟨"page"⟩ ⟨"book"⟩ :=
    .single ⟨⟨shelfPage, by simp, rfl, rfl⟩, by decide +kernel⟩
  have hroot : shelfAccess.grantOf? .standard ⟨"local"⟩ ⟨"shelf"⟩ = some .read := by
    decide +kernel
  have htop : ¬ InheritsFrom .standard shelfAccess ⟨"local"⟩
      (Forest.Index.shelfIndex.streams ++ [shelfPage]) ⟨"shelf"⟩ ⟨"book"⟩ := by
    intro habove
    obtain hself | ⟨parent, hstep, -⟩ := habove.cases_head
    · exact absurd hself (by decide)
    · cases hroot.symm.trans hstep.2
  obtain ⟨hbefore, hafter⟩ := (hlocal shelfPage (by simp)).2 hpage
  obtain ⟨-, hentry, -⟩ := hlevels ⟨⟨"shelf"⟩, none, false⟩ (by simp [Forest.Index.shelfIndex])
  refine ⟨Forest.Index.shelf_ofStreams, hr, hshelf, hbook, hentry .read hroot, hbefore, hafter, ?_⟩
  by_contra hchanged
  exact htop ((hlocal ⟨⟨"shelf"⟩, none, false⟩ (by simp [Forest.Index.shelfIndex])).1 hchanged)

end Caller

end StreamScope
