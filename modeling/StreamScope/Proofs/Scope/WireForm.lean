import StreamScope.Proofs.Json.Reading
import StreamScope.Scope.Predicate

/-!
Resolved queries and predicates in the form in which they travel. A branch or a
predicate is an object with one key, which names its kind, and is read from that
object alone. A clause leaves out an absent inclusion list, but not an empty one,
and an empty list of branches. What is left out is absent or empty again when the
clause is read, so a query and a predicate of any depth come back as they were.
-/

namespace StreamScope

open Json

theorem StreamId.inverts : Inverts StreamId.ofJson? StreamId.toJson := by
  intro j id
  cases id with
  | mk text => simp [StreamId.ofJson?, StreamId.toJson, inverts_string j]

theorem StreamId.inverts_list : Inverts StreamId.listOfJson? StreamId.listToJson :=
  StreamId.inverts.list

theorem Json.asSingle?_eq_some_iff (j : Json) (field : String × Json) :
    j.asSingle? = some field ↔ j = .object [field] := by
  unfold asSingle?
  split
  case h_1 only => simp
  case h_2 hmore => exact iff_of_false nofun (hmore field)

theorem Branch.inverts : Inverts Branch.ofJson? Branch.toJson := by
  intro j b
  constructor
  · intro hread
    obtain ⟨field, hfield, hkind⟩ := Option.bind_eq_some_iff.mp hread
    rw [asSingle?_eq_some_iff] at hfield
    split at hkind
    case h_1 =>
      obtain ⟨ids, rfl, rfl⟩ := StreamId.inverts_list.exists_of_map hkind
      rw [hfield, Branch.toJson]
    case h_2 =>
      obtain ⟨ids, rfl, rfl⟩ := StreamId.inverts_list.exists_of_map hkind
      rw [hfield, Branch.toJson]
    case h_3 => cases hkind
  · rintro rfl
    cases b with
    | any ids => exact congrArg (Option.map Branch.any) (StreamId.inverts_list.read_write ids)
    | not ids => exact congrArg (Option.map Branch.not) (StreamId.inverts_list.read_write ids)

namespace ResolvedClause

/-- What a clause writes under each of its keys. -/
theorem record?_toJson (c : ResolvedClause) :
    c.toJson.record? .json ["storeId", "any", "and"] =
      some [some (.string c.store.text), c.any.map StreamId.listToJson,
        if c.branches = [] then none else some (.array (c.branches.map Branch.toJson))] := by
  rw [toJson, record?_ofFields]
  cases hany : c.any <;> cases hbranches : c.branches <;> simp [lookup?]

theorem ofJson?_toJson (c : ResolvedClause) : ofJson? c.toJson = some c := by
  have hstore : Json.required asString? (some (.string c.store.text)) = some c.store.text := rfl
  have hany : Json.nullable StreamId.listOfJson? (c.any.map StreamId.listToJson) = some c.any := by
    cases c.any with
    | none => rfl
    | some ids => exact StreamId.inverts_list.nullable nofun
  have hbranches : Json.defaulted [] (asList? Branch.ofJson?)
      (if c.branches = [] then none else some (.array (c.branches.map Branch.toJson))) =
        some c.branches := by
    split
    case isTrue hnil => rw [hnil, Json.defaulted]
    case isFalse => exact Branch.inverts.list.read_write c.branches
  simp only [ofJson?, record?_toJson, Option.bind_eq_bind, Option.bind_some, hstore, hany,
    hbranches, Option.pure_def]

end ResolvedClause

theorem ResolvedQuery.ofJson?_toJson (q : ResolvedQuery) : ofJson? q.toJson = some q := by
  have hclauses : asList? ResolvedClause.ofJson? (.array (q.clauses.map ResolvedClause.toJson)) =
      some q.clauses := asList?_map fun c _ => ResolvedClause.ofJson?_toJson c
  rw [ofJson?, toJson, hclauses, Option.map_some]

namespace StreamPredicate

mutual
theorem ofJson?_toJson : (p : StreamPredicate) → ofJson? p.toJson = some p
  | .eq id => congrArg (Option.map eq) (StreamId.inverts.read_write id)
  | .ne id => congrArg (Option.map ne) (StreamId.inverts.read_write id)
  | .isIn ids => congrArg (Option.map isIn) (StreamId.inverts_list.read_write ids)
  | .notIn ids => congrArg (Option.map notIn) (StreamId.inverts_list.read_write ids)
  | .and parts => by rw [toJson, ofJson?, listOfJson?_listToJson parts, Option.map_some]
  | .or parts => by rw [toJson, ofJson?, listOfJson?_listToJson parts, Option.map_some]

theorem listOfJson?_listToJson : (parts : List StreamPredicate) →
    listOfJson? (listToJson parts) = some parts
  | [] => rfl
  | part :: parts => by
      rw [listToJson, listOfJson?, ofJson?_toJson part, listOfJson?_listToJson parts]
      rfl
end

mutual
theorem toJson_of_ofJson? (p : StreamPredicate) (j : Json) (h : ofJson? j = some p) :
    j = p.toJson := by
  unfold ofJson? at h
  split at h
  case h_1 =>
    obtain ⟨id, rfl, rfl⟩ := StreamId.inverts.exists_of_map h
    rw [toJson]
  case h_2 =>
    obtain ⟨id, rfl, rfl⟩ := StreamId.inverts.exists_of_map h
    rw [toJson]
  case h_3 =>
    obtain ⟨ids, rfl, rfl⟩ := StreamId.inverts_list.exists_of_map h
    rw [toJson]
  case h_4 =>
    obtain ⟨ids, rfl, rfl⟩ := StreamId.inverts_list.exists_of_map h
    rw [toJson]
  case h_5 values =>
    obtain ⟨parts, hparts, rfl⟩ := Option.map_eq_some_iff.mp h
    rw [toJson, listToJson_of_listOfJson? parts values hparts]
  case h_6 values =>
    obtain ⟨parts, hparts, rfl⟩ := Option.map_eq_some_iff.mp h
    rw [toJson, listToJson_of_listOfJson? parts values hparts]
  case h_7 => cases h

theorem listToJson_of_listOfJson? (parts : List StreamPredicate) (values : List Json)
    (h : listOfJson? values = some parts) : values = listToJson parts := by
  cases values with
  | nil =>
    obtain rfl := Option.some.inj h
    rfl
  | cons value values =>
    obtain ⟨part, hpart, htail⟩ := Option.bind_eq_some_iff.mp h
    obtain ⟨rest, hrest, hparts⟩ := Option.bind_eq_some_iff.mp htail
    obtain rfl := Option.some.inj hparts
    rw [listToJson, toJson_of_ofJson? part value hpart, listToJson_of_listOfJson? rest values hrest]
end

theorem inverts : Inverts ofJson? toJson := fun j p =>
  ⟨toJson_of_ofJson? p j, fun h => h ▸ ofJson?_toJson p⟩

end StreamPredicate

/-- A query comes back from what it is written as, and so does a predicate of any depth, which is
read from no other value. A clause writes no absent inclusion list and no empty list of branches. -/
theorem wire_forms_read_back :
    (∀ q : ResolvedQuery, ResolvedQuery.ofJson? q.toJson = some q) ∧
      (∀ c : ResolvedClause, c.toJson.record? .json ["storeId", "any", "and"] =
        some [some (.string c.store.text), c.any.map StreamId.listToJson,
          if c.branches = [] then none else some (.array (c.branches.map Branch.toJson))]) ∧
      ∀ (p : StreamPredicate) (j : Json), StreamPredicate.ofJson? j = some p ↔ j = p.toJson :=
  ⟨ResolvedQuery.ofJson?_toJson, ResolvedClause.record?_toJson,
    fun p j => StreamPredicate.inverts j p⟩

end StreamScope
