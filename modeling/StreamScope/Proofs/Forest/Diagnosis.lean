import StreamScope.Proofs.Forest.Acceptance

/-!
What a list of streams is refused for. The streams that are left when no pass can
store any more are those without a root above them, in the order of the list, and
every cycle of the list is among them. So a cycle is named exactly where there is
one. Where there is none the first stream that is left is blamed, although its
parent may be listed and itself be left behind a missing one.
-/

namespace StreamScope.Lineage

variable {streams : List Stream} {id : StreamId} {s : Stream}

/-- The first stream of the list that has no root above it. -/
def FirstAstray (streams : List Stream) (s : Stream) : Prop :=
  ∃ before after, streams = before ++ s :: after ∧ (∀ t ∈ before, Rooted streams t.id) ∧
    ¬ Rooted streams s.id

theorem dangles_iff {parent : StreamId} (hdistinct : (streams.map Stream.id).Nodup)
    (hs : s ∈ streams) (hp : s.parent = some parent) :
    Dangles streams s.id ↔ parent ∉ streams.map Stream.id := by
  constructor
  · intro hdangles
    obtain ⟨p, hlink, hout⟩ := hdangles
    have hsame := hlink.eq_parent hdistinct hs
    rw [hp, Option.some.injEq] at hsame
    exact hsame ▸ hout
  · exact fun hout => ⟨parent, ⟨s, hs, rfl, hp⟩, hout⟩

/-- From a stream on a cycle the climb fails. -/
theorem OnCycle.exists_ancestors_eq_error (hdistinct : (streams.map Stream.id).Nodup)
    (h : OnCycle streams id) : ∃ x, ancestors streams id = .error x := by
  obtain ⟨s, hs⟩ := exists_find?_of_mem_ids h.mem_ids
  cases hc : climb streams [id] s with
  | error x => exact ⟨x, by simp [ancestors, hs, hc, Except.map]⟩
  | ok chain =>
    have hanswer : ancestors streams id = .ok (some chain) := by
      simp [ancestors, hs, hc, Except.map]
    have hchain := (ancestors_eq_ok_some_iff streams id chain).mp hanswer
    exact absurd h (hchain.not_onCycle hdistinct)

end StreamScope.Lineage

namespace StreamScope.Forest

open Lineage Relation

variable {f : Forest} {streams left stuck rest : List Stream} {first s : Stream} {x : StreamId}

/-! ## The loop -/

theorem onCycle_of_loop? (h : loop? stuck = some x) : OnCycle stuck x := by
  obtain ⟨s, -, hs⟩ := List.exists_of_findSome?_eq_some h
  split at hs
  case h_1 y hclimb =>
    obtain rfl := Option.some.inj hs
    exact (onCycle_of_ancestors hclimb).1.mono fun t ht => List.mem_reverse.mp ht
  case h_2 => cases hs

theorem exists_loop?_of_onCycle (hdistinct : (stuck.map Stream.id).Nodup)
    (h : OnCycle stuck x) : ∃ y, loop? stuck = some y := by
  have hreversed : (stuck.reverse.map Stream.id).Nodup := by
    rwa [List.map_reverse, List.nodup_reverse]
  have hcycle : OnCycle stuck.reverse x := h.mono fun t ht => List.mem_reverse.mpr ht
  obtain ⟨s, hs, rfl⟩ := List.mem_map.mp h.mem_ids
  obtain ⟨y, hy⟩ := hcycle.exists_ancestors_eq_error hreversed
  refine Option.isSome_iff_exists.mp (List.findSome?_isSome_iff.mpr ⟨s, hs, ?_⟩)
  rw [hy]
  rfl

/-! ## What is left -/

/-- A cycle of the list has no stream that could be stored. -/
theorem Stuck.onCycle_left (hnamed : Named streams) (h : Stuck streams f left)
    (hcycle : OnCycle streams x) : OnCycle left x := by
  have hlink {a b : StreamId} (ha : ¬ Rooted streams a) (hab : Linked streams a b) :
      Linked left a b ∧ ¬ Rooted streams b := by
    refine ⟨?_, fun hb => ha (hab.rooted hb)⟩
    obtain ⟨s, hs, rfl, hp⟩ := hab
    exact ⟨s, (h.mem_left_iff hnamed hs).mpr ha, rfl, hp⟩
  have hastray : ¬ Rooted streams x := fun hx => hx.not_onCycle hnamed.distinct hcycle
  -- Walking along the cycle from `x`, every link starts at a stream without a root.
  have hwalk {b : StreamId} (hway : TransGen (Linked streams) x b) :
      TransGen (Linked left) x b ∧ ¬ Rooted streams b := by
    induction hway with
    | single hab => exact ⟨.single (hlink hastray hab).1, (hlink hastray hab).2⟩
    | tail _ hbc ih => exact ⟨ih.1.tail (hlink ih.2 hbc).1, (hlink ih.2 hbc).2⟩
  exact (hwalk hcycle).1

open Classical in
theorem Stuck.left_eq_filter (hnamed : Named streams) (h : Stuck streams f left) :
    left = streams.filter fun s => ¬ Rooted streams s.id := by
  have hrooted : ∀ s ∈ f.streams, Rooted streams s.id :=
    fun s hs => (h.rooted_iff s.id).mpr (id_mem_ids hs)
  have hastray : ∀ s ∈ left, ¬ Rooted streams s.id :=
    fun s hs => (h.mem_left_iff hnamed (h.sublist.subset hs)).mp hs
  have hstored : f.streams.filter (fun s => ¬ Rooted streams s.id) = [] := by simpa using hrooted
  have hleft : left.filter (fun s => ¬ Rooted streams s.id) = left := by simpa using hastray
  have hsub := h.sublist.filter fun s : Stream => ¬ Rooted streams s.id
  have hperm := h.perm.filter fun s : Stream => ¬ Rooted streams s.id
  rw [hleft] at hsub
  rw [List.filter_append, hstored, hleft, List.nil_append] at hperm
  exact hsub.eq_of_length hperm.length_eq

theorem Stuck.firstAstray_iff (hnamed : Named streams) (h : Stuck streams f (first :: rest)) :
    FirstAstray streams s ↔ s = first := by
  classical
  have hfind : streams.find? (fun s => ¬ Rooted streams s.id) = some first := by
    rw [← List.head?_filter, ← h.left_eq_filter hnamed, List.head?_cons]
  have hs : FirstAstray streams s ↔
      streams.find? (fun s => ¬ Rooted streams s.id) = some s := by
    rw [List.find?_eq_some_iff_append]
    constructor
    · rintro ⟨before, after, heq, hbefore, hs⟩
      exact ⟨by simpa using hs, before, after, heq, by simpa using hbefore⟩
    · rintro ⟨hs, before, after, heq, hbefore⟩
      exact ⟨before, after, heq, by simpa using hbefore, by simpa using hs⟩
  rw [hs, hfind, Option.some.injEq, eq_comm]

/-- A cycle is named if there is one, and else the first stream that is left. -/
theorem Stuck.diagnosis (hnamed : Named streams) (h : Stuck streams f (first :: rest)) :
    (∃ x, OnCycle streams x ∧ diagnose first rest = .cycle x) ∨
      (∀ x, ¬ OnCycle streams x) ∧ ∃ parent, first.parent = some parent ∧
        diagnose first rest = .missingParent first.id parent := by
  cases hloop : loop? (first :: rest) with
  | some x =>
    exact .inl ⟨x, (onCycle_of_loop? hloop).mono h.sublist.subset, by simp [diagnose, hloop]⟩
  | none =>
    obtain ⟨parent, hparent, -⟩ := h.missing first List.mem_cons_self
    refine .inr ⟨fun x hcycle => ?_, parent, hparent, by simp [diagnose, hloop, hparent]⟩
    have hdistinct := (hnamed.sublist h.sublist).distinct
    obtain ⟨y, hy⟩ := exists_loop?_of_onCycle hdistinct (h.onCycle_left hnamed hcycle)
    rw [hloop] at hy
    cases hy

namespace Index

/-- A cycle is named exactly where there is one. Where there is none the blamed stream has the
parent that is named and a missing parent somewhere above it; but the parent that is named is
missing only if the first stream without a root above it lacks its own parent. -/
theorem blamed_parent_missing_iff {fault : Fault} (hnamed : Named streams)
    (h : ofStreams streams = .error fault) :
    (∀ x, fault = .cycle x → OnCycle streams x) ∧
      ((∃ x, fault = .cycle x) ↔ ∃ x, OnCycle streams x) ∧
      ((∃ id parent, fault = .missingParent id parent) ↔ ∀ x, ¬ OnCycle streams x) ∧
      (∀ id parent, fault = .missingParent id parent → Linked streams id parent ∧
        ∃ x, ReflTransGen (Linked streams) id x ∧ Dangles streams x) ∧
      ((∀ id parent, fault = .missingParent id parent → parent ∉ streams.map Stream.id) ↔
        (∃ x, OnCycle streams x) ∨ ∀ s, FirstAstray streams s → Dangles streams s.id) := by
  obtain ⟨f, first, rest, rfl, hstuck⟩ :=
    exists_stuck_of_ofStreams hnamed ((ofStreams_eq_error_iff streams fault).mp h)
  rcases hstuck.diagnosis hnamed with ⟨x, hcycle, hfault⟩ | ⟨hacyclic, parent, hparent, hfault⟩
  · have hsome : ∃ x, OnCycle streams x := ⟨x, hcycle⟩
    simp [hfault, hcycle, hsome]
  · have hfirst : first ∈ streams := hstuck.sublist.subset List.mem_cons_self
    have hlink : Linked streams first.id parent := ⟨first, hfirst, rfl, hparent⟩
    have hastray := (hstuck.mem_left_iff hnamed hfirst).mp List.mem_cons_self
    have habove : ∃ x, ReflTransGen (Linked streams) first.id x ∧ Dangles streams x := by
      rcases rooted_or_obstructed hlink.mem_ids with hrooted | ⟨x, hway, hcycle | hdangles⟩
      · exact absurd hrooted hastray
      · exact absurd hcycle (hacyclic x)
      · exact ⟨x, hway, hdangles⟩
    have hmissing := dangles_iff hnamed.distinct hfirst hparent
    simp [hfault, hacyclic, hlink, habove, hstuck.firstAstray_iff hnamed, hmissing]

/-- The first stream hangs below one whose parent is missing. -/
def hangingStreams : List Stream :=
  [⟨⟨"b"⟩, some ⟨"a"⟩, false⟩, ⟨⟨"a"⟩, some ⟨"ghost"⟩, false⟩]

theorem hangingStreams_named : Named hangingStreams := ⟨by decide, by decide⟩

theorem ofStreams_hangingStreams :
    ofStreams hangingStreams = .error (.missingParent ⟨"b"⟩ ⟨"a"⟩) := by decide +kernel

theorem blamed_parent_missing_hanging :
    Named hangingStreams ∧ ofStreams hangingStreams = .error (.missingParent ⟨"b"⟩ ⟨"a"⟩) ∧
      (∃ x, ReflTransGen (Linked hangingStreams) ⟨"b"⟩ x ∧ Dangles hangingStreams x) ∧
      ∃ s, FirstAstray hangingStreams s ∧ ¬ Dangles hangingStreams s.id := by
  obtain ⟨-, -, -, habove, hmissing⟩ :=
    blamed_parent_missing_iff hangingStreams_named ofStreams_hangingStreams
  refine ⟨hangingStreams_named, ofStreams_hangingStreams, (habove _ _ rfl).2, ?_⟩
  by_contra hnone
  refine hmissing.mpr (.inr fun s hs => ?_) _ _ rfl (by decide)
  exact by_contra fun hs' => hnone ⟨s, hs, hs'⟩

/-- A stream is said to lack a parent that is listed, where another lacks its parent. -/
theorem listed_parent_blamed :
    Named hangingStreams ∧ (∀ x, ¬ OnCycle hangingStreams x) ∧
      ofStreams hangingStreams = .error (.missingParent ⟨"b"⟩ ⟨"a"⟩) ∧
      ⟨"a"⟩ ∈ hangingStreams.map Stream.id ∧ Dangles hangingStreams ⟨"a"⟩ := by
  refine ⟨hangingStreams_named, fun x hcycle => ?_, ofStreams_hangingStreams, by decide, ?_⟩
  · obtain ⟨y, hy⟩ := exists_loop?_of_onCycle hangingStreams_named.distinct hcycle
    have hloop : loop? hangingStreams = none := by decide +kernel
    rw [hloop] at hy
    cases hy
  · exact ⟨⟨"ghost"⟩, ⟨_, .tail _ (.head _), rfl, rfl⟩, by decide⟩

end Index

end StreamScope.Forest
