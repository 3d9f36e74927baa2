import StreamScope.Query.LegacyPrefixes

/-!
How a full id names its store. With the default settings `:dummy:diary` is the
stream `diary` of the store `dummy`, `diary` lies in the default store, and
`:_system:account` does too, under its full id, because `_system` is an alias.
Settings become conventions only when they have no fault.
-/

namespace StreamScope

namespace Conventions

structure Settings where
  defaultStore : StoreId := ⟨"local"⟩
  delimiter : Char := ':'
  marker : Char := '#'
  aliases : List String := ["_system", "system"]
  legacy : Option LegacyPrefixes := some ⟨".", ":_system:"⟩
deriving DecidableEq, Repr

inductive Fault where
  | emptyDefaultStore
  | delimiterInDefaultStore (store : String)
  | reservedDelimiter (c : Char)
  | reservedMarker (c : Char)
  | delimiterIsMarker
  | emptyAlias
  | prefixes (fault : LegacyPrefixes.Fault)
deriving DecidableEq, Repr

namespace Fault

def message : Fault → String
  | .emptyDefaultStore => "default store must not be empty"
  | .delimiterInDefaultStore store =>
      "default store " ++ Text.quoteString store ++ " must not contain the store delimiter"
  | .reservedDelimiter c => "store delimiter " ++ Text.quoteChar c ++ " is reserved"
  | .reservedMarker c => "no-expand marker " ++ Text.quoteChar c ++ " is reserved"
  | .delimiterIsMarker => "store delimiter and no-expand marker must differ"
  | .emptyAlias => "system store aliases must not be empty"
  | .prefixes fault => fault.message

end Fault

/-- Characters that neither part an id nor mark one. -/
def isReserved (c : Char) : Bool :=
  Text.isWhitespace c || Text.isControl c ||
    ['*', '"', ',', '\\', '[', ']', '\x7b', '\x7d'].contains c

/-- The first fault of the settings. -/
def Settings.fault? (s : Settings) : Option Fault :=
  let store := s.defaultStore.text
  if store.toList.isEmpty then some .emptyDefaultStore
  else if store.toList.contains s.delimiter then some (.delimiterInDefaultStore store)
  else if isReserved s.delimiter then some (.reservedDelimiter s.delimiter)
  else if isReserved s.marker then some (.reservedMarker s.marker)
  else if s.delimiter = s.marker then some .delimiterIsMarker
  else if s.aliases.contains "" then some .emptyAlias
  else (s.legacy.bind (·.fault? s.marker)).map .prefixes

end Conventions

structure Conventions extends Conventions.Settings where
  sound : toSettings.fault? = none

namespace Conventions

def Settings.build (s : Settings) : Except Fault Conventions :=
  match h : s.fault? with
  | none => .ok ⟨s, h⟩
  | some fault => .error fault

/-- The store name and the local part of `:store:local`, if the text has that form, the name is
not empty and no alias of the default store. -/
def parts? (k : Conventions) : List Char → Option (List Char × List Char)
  | [] => none
  | c :: after =>
      let store := after.takeWhile (· ≠ k.delimiter)
      match after.dropWhile (· ≠ k.delimiter) with
      | [] => none
      | _ :: rest =>
          if c = k.delimiter && !store.isEmpty && !k.aliases.contains (String.ofList store) then
            some (store, rest)
          else none

/-- The store of a full id and the id within it. A marker before the store's name moves to the
local id, and an empty local part stands for the whole store. Any text without a store's name
lies in the default store as it is. -/
def split (k : Conventions) (full : String) : StoreId × StreamId :=
  let (head, body) := Marker.cut k.marker full.toList
  match k.parts? body with
  | none => (k.defaultStore, ⟨full⟩)
  | some (store, rest) =>
      let localPart := if rest.isEmpty then StreamId.wildcard.text.toList else rest
      (⟨String.ofList store⟩, ⟨String.ofList (head ++ localPart)⟩)

def storeOf (k : Conventions) (full : String) : StoreId := (k.split full).1

/-- The full id of a stream: the default store is not named. -/
def fullId (k : Conventions) (store : StoreId) (id : StreamId) : StreamId :=
  if store = k.defaultStore then id
  else
    let d := String.singleton k.delimiter
    ⟨d ++ store.text ++ d ++ id.text⟩

/-- Whether the id stands for its stream alone. -/
def isNoExpand (k : Conventions) (id : StreamId) : Bool := Marker.isMarked k.marker id

def stripMarker (k : Conventions) (id : StreamId) : StreamId := Marker.strip k.marker id

/-- Why a value is no conventions: it has another shape, or a fault. -/
inductive ReadError where
  | shape
  | fault (fault : Fault)
deriving DecidableEq, Repr

def toJson (k : Conventions) : Json :=
  .ofFields [("default_store", .string k.defaultStore.text),
    ("store_delimiter", .string (String.singleton k.delimiter)),
    ("no_expand_marker", .string (String.singleton k.marker)),
    ("system_store_aliases", .ofStrings k.aliases),
    ("legacy", (k.legacy.map LegacyPrefixes.toJson).getD .null)]

/-- Every field may be missing. A missing pair of prefixes means there is none. -/
def Settings.ofJson? (source : Json.Source) (j : Json) : Option Settings := do
  let fallback : Settings := {}
  match ← j.record? source ["default_store", "store_delimiter", "no_expand_marker",
      "system_store_aliases", "legacy"] with
  | [defaultStore, delimiter, marker, aliases, legacy] =>
      pure {
        defaultStore := ((← Json.nullable Json.asString? defaultStore).map StoreId.mk).getD
          fallback.defaultStore
        delimiter := (← Json.nullable Json.asChar? delimiter).getD fallback.delimiter
        marker := (← Json.nullable Json.asChar? marker).getD fallback.marker
        aliases := (← Json.nullable (Json.asList? Json.asString?) aliases).getD fallback.aliases
        legacy := ← Json.nullable (LegacyPrefixes.ofJson? source) legacy }
  | _ => none

def ofJson (source : Json.Source) (j : Json) : Except ReadError Conventions :=
  match Settings.ofJson? source j with
  | none => .error .shape
  | some settings => settings.build.mapError .fault

theorem Settings.fault?_default : ({} : Settings).fault? = none := by
  decide +kernel

/-- Streams of the store `local`, with both spellings of the system prefix. -/
def standard : Conventions := ⟨{}, Settings.fault?_default⟩

end Conventions
end StreamScope
