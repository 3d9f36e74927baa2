import StreamScope.Json.Typed
import StreamScope.Proofs.Ascending

/-!
Values read back from what was written. A reading inverts a writing if it takes
what the writing produces for what was written, and takes nothing else. In the
object of some fields each key holds the value that was given last under it,
wherever the key comes in the order, so a record finds its fields again.
-/

namespace StreamScope.Json

variable {α β : Type} {read : Json → Option α} {write : α → Json} {fields : List (String × Json)}

/-! ## Fields -/

theorem lookup?_cons (field : String × Json) (fields : List (String × Json)) (key : String) :
    lookup? (field :: fields) key = if field.1 = key then some field.2 else lookup? fields key := by
  by_cases h : field.1 = key <;> simp [lookup?, h]

theorem lookup?_insert (field : String × Json) (fields : List (String × Json)) (key : String) :
    lookup? (Ascending.insert Ascending.byKey field fields) key =
      if field.1 = key then some field.2 else lookup? fields key := by
  induction fields with
  | nil => exact lookup?_cons field [] key
  | cons first rest ih =>
    unfold Ascending.insert
    split
    case h_1 => exact lookup?_cons field (first :: rest) key
    case h_2 heq =>
      -- the field that is replaced has the key of the new one
      have hsame : field.1 = first.1 := Std.LawfulEqOrd.eq_of_compare heq
      rw [lookup?_cons, lookup?_cons, hsame]
      split <;> rfl
    case h_3 hgt =>
      have hne : field.1 ≠ first.1 := fun hsame => by
        simp [Ascending.byKey, hsame] at hgt
      rw [lookup?_cons, ih, lookup?_cons]
      by_cases hfirst : first.1 = key
      · simp [← hfirst, hne]
      · simp [hfirst]

/-- Of a repeated key the last value counts. -/
theorem lookup?_sortedFields (fields : List (String × Json)) (key : String) :
    lookup? (sortedFields fields) key = lookup? fields.reverse key := by
  induction fields using List.reverseRecOn with
  | nil => rfl
  | append_singleton fields field ih =>
    rw [sortedFields, Ascending.ofList_append_singleton, lookup?_insert, List.reverse_concat,
      lookup?_cons]
    exact if_congr Iff.rfl rfl ih

theorem record?_ofFields (source : Source) (names : List String)
    (fields : List (String × Json)) :
    (ofFields fields).record? source names = some (names.map (lookup? fields.reverse)) := by
  have hlookup : lookup? (sortedFields fields) = lookup? fields.reverse :=
    funext (lookup?_sortedFields fields)
  simp [record?, isWithin, fields?, ofFields, hlookup]

/-! ## Inverse readings -/

/-- The reading takes exactly the values that the writing produces. -/
def Inverts (read : Json → Option α) (write : α → Json) : Prop :=
  ∀ j a, read j = some a ↔ j = write a

theorem Inverts.read_write (h : Inverts read write) (a : α) : read (write a) = some a :=
  (h (write a) a).mpr rfl

theorem Inverts.exists_of_map (h : Inverts read write) {j : Json} {wrap : α → β} {b : β}
    (heq : (read j).map wrap = some b) : ∃ a, wrap a = b ∧ j = write a := by
  obtain ⟨a, ha, hb⟩ := Option.map_eq_some_iff.mp heq
  exact ⟨a, hb, (h j a).mp ha⟩

theorem inverts_string : Inverts asString? .string := by
  intro j s
  cases j <;> simp [asString?]

theorem inverts_char : Inverts asChar? fun c => .string (String.singleton c) := by
  intro j c
  cases j with
  | string s =>
    rw [Json.string.injEq, ← String.toList_inj, String.toList_singleton, asChar?]
    split
    case h_1 d hd => rw [hd, Option.some.injEq, List.singleton_inj]
    case h_2 hmore => exact iff_of_false nofun (hmore c)
  | _ => simp [asChar?]

theorem mapM_read_eq_some_iff (h : Inverts read write) (items : List Json) (values : List α) :
    items.mapM read = some values ↔ items = values.map write := by
  induction items generalizing values with
  | nil => cases values <;> simp
  | cons item items ih =>
    rw [List.mapM_cons]
    cases values with
    | nil => simp [Option.bind_eq_some_iff]
    | cons value values => simp [Option.bind_eq_some_iff, h item, ih]

theorem Inverts.list (h : Inverts read write) :
    Inverts (asList? read) fun values => .array (values.map write) := by
  intro j values
  cases j with
  | array items => simp [asList?, mapM_read_eq_some_iff h]
  | _ => simp [asList?]

theorem asList?_map {values : List α} (h : ∀ a ∈ values, read (write a) = some a) :
    asList? read (.array (values.map write)) = some values := by
  induction values with
  | nil => rfl
  | cons value values ih =>
    obtain ⟨hvalue, hvalues⟩ := List.forall_mem_cons.mp h
    have hrest : (values.map write).mapM read = some values := ih hvalues
    rw [asList?, List.map_cons, List.mapM_cons, hvalue, hrest]
    rfl

/-- A field that may be null is read back where nothing is written as null. -/
theorem Inverts.nullable (h : Inverts read write) {a : α} (hnull : write a ≠ .null) :
    Json.nullable read (some (write a)) = some (some a) := by
  unfold Json.nullable
  split
  case h_1 hnone => cases hnone
  case h_2 hsome => exact absurd (Option.some.inj hsome) hnull
  case h_3 value _ hsome =>
    obtain rfl := Option.some.inj hsome
    rw [h.read_write a, Option.map_some]

end StreamScope.Json
