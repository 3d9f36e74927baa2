import StreamScope.Json.Basic

/-!
Reading values of a known shape. A record is an object of named fields, where
names it does not know are passed over, or the array of its first fields in
their order; a field that is not given reads as missing. Values come from JSON
text or from TOML text, which is taken less strictly.
-/

namespace StreamScope.Json

def asString? : Json → Option String
  | .string value => some value
  | _ => none

def asBool? : Json → Option Bool
  | .bool value => some value
  | _ => none

def asNat? : Json → Option Nat
  | .number (.integer (.ofNat value)) => some value
  | _ => none

/-- A character is a string of exactly one code point. -/
def asChar? : Json → Option Char
  | .string value =>
      match value.toList with
      | [c] => some c
      | _ => none
  | _ => none

def asList? (read : Json → Option α) : Json → Option (List α)
  | .array items => items.mapM read
  | _ => none

/-- The kind of text that a value was read from. -/
inductive Source where
  | json
  | toml
deriving DecidableEq, Repr

namespace Source

/-- Whether an array may go on behind the fields of the record that it stands for. -/
def allowsSurplus : Source → Bool
  | .json => false
  | .toml => true

/-- Whether a value stands for no content: null, in whose place TOML has an empty array or
table. -/
def isVoid : Source → Json → Bool
  | .json, .null => true
  | .toml, .array [] => true
  | .toml, .object [] => true
  | _, _ => false

end Source

/-- A choice without content is its name, or its name as the only key, over no content. -/
def asName? (source : Source) : Json → Option String
  | .string name => some name
  | .object [(name, content)] => if source.isVoid content then some name else none
  | _ => none

/-- The only key of an object and the value under it. -/
def asSingle? : Json → Option (String × Json)
  | .object [field] => some field
  | _ => none

/-- The values of the named fields of a record, whatever else it holds. -/
def fields? (names : List String) : Json → Option (List (Option Json))
  | .object fields => some (names.map (lookup? fields))
  | .array items => some (names.mapIdx fun i _ => items[i]?)
  | _ => none

/-- Whether an array ends with the fields of the record that it stands for, where it has to. -/
def isWithin (source : Source) (names : List String) : Json → Bool
  | .array items => source.allowsSurplus || items.length ≤ names.length
  | _ => true

/-- The values of the named fields of a record that holds no more than it may. -/
def record? (source : Source) (names : List String) (j : Json) : Option (List (Option Json)) :=
  if j.isWithin source names then j.fields? names else none

/-- Whether an object has no key but the given ones. -/
def hasOnly (names : List String) : Json → Bool
  | .object fields => fields.all fun field => names.contains field.1
  | _ => true

/-- A field that must be given. -/
def required (read : Json → Option α) : Option Json → Option α
  | some value => read value
  | none => none

/-- A field with a default. -/
def defaulted (fallback : α) (read : Json → Option α) : Option Json → Option α
  | some value => read value
  | none => some fallback

/-- A field that may be missing or null. -/
def nullable (read : Json → Option α) : Option Json → Option (Option α)
  | none => some none
  | some .null => some none
  | some value => (read value).map some

end StreamScope.Json
