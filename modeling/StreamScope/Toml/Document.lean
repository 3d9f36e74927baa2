import StreamScope.Json.Basic

/-!
TOML documents as they grow, statement by statement. Each key is defined once. A
header opens its table once, also after deeper headers named it in passing; the
keys of a dotted path make tables of their own, which only dotted paths extend.
On its way to those a dotted path may cross tables that headers named in passing
and the last element of an array of tables. The finished document is read as a
JSON object.
-/

namespace StreamScope.Toml

/-- What made a table: a header of its own, a deeper header, or a dotted key. -/
inductive Origin where
  | header
  | implied
  | dotted
deriving DecidableEq, Repr

inductive Item where
  | value (json : Json)
  | table (origin : Origin) (entries : List (String × Item))
  | elements (tables : List (List (String × Item)))

abbrev Entries := List (String × Item)

inductive Statement where
  | assign (path : List String) (value : Json)
  /-- Opens a table. -/
  | table (path : List String)
  /-- Opens a new element of an array of tables. -/
  | element (path : List String)

namespace Entries

def get? (entries : Entries) (key : String) : Option Item :=
  (entries.find? fun entry => entry.1 = key).map Prod.snd

/-- Replaces the item under the key, or adds it at the end. -/
def set (key : String) (item : Item) : Entries → Entries
  | [] => [(key, item)]
  | (k, old) :: rest => if k = key then (k, item) :: rest else (k, old) :: set key item rest

/-- Defines a value under a dotted path. -/
def assign? (value : Json) : List String → Entries → Option Entries
  | [], _ => none
  | [key], entries =>
      if (entries.get? key).isSome then none else some (entries.set key (.value value))
  | key :: next :: path, entries =>
      match entries.get? key with
      | none => (assign? value (next :: path) []).map fun inner =>
          entries.set key (.table .dotted inner)
      | some (.table origin inner) =>
          if origin = .dotted || (origin = .implied && !path.isEmpty) then
            (assign? value (next :: path) inner).map fun inner =>
              entries.set key (.table origin inner)
          else none
      | some (.elements tables) =>
          match tables.getLast?, path with
          | some last, _ :: _ =>
              (assign? value (next :: path) last).map fun last =>
                entries.set key (.elements (tables.dropLast ++ [last]))
          | _, _ => none
      | some (.value _) => none

/-- Changes the table at a path of headers; the last element stands for an array of tables. -/
def within? (change : Entries → Option Entries) : List String → Entries → Option Entries
  | [], entries => change entries
  | key :: path, entries =>
      match entries.get? key with
      | none => (within? change path []).map fun inner => entries.set key (.table .implied inner)
      | some (.table origin inner) =>
          (within? change path inner).map fun inner => entries.set key (.table origin inner)
      | some (.elements tables) =>
          match tables.getLast? with
          | none => none
          | some last =>
              (within? change path last).map fun last =>
                entries.set key (.elements (tables.dropLast ++ [last]))
      | some (.value _) => none

def openTable? (key : String) (entries : Entries) : Option Entries :=
  match entries.get? key with
  | none => some (entries.set key (.table .header []))
  | some (.table .implied inner) => some (entries.set key (.table .header inner))
  | some _ => none

def openElement? (key : String) (entries : Entries) : Option Entries :=
  match entries.get? key with
  | none => some (entries.set key (.elements [[]]))
  | some (.elements tables) => some (entries.set key (.elements (tables ++ [[]])))
  | some _ => none

end Entries

mutual
def Item.toJson : Item → Json
  | .value json => json
  | .table _ entries => .ofFields (Entries.toFields entries)
  | .elements tables => .array (Entries.tablesToJson tables)

def Entries.toFields : List (String × Item) → List (String × Json)
  | [] => []
  | (key, item) :: entries => (key, Item.toJson item) :: Entries.toFields entries

def Entries.tablesToJson : List (List (String × Item)) → List Json
  | [] => []
  | table :: tables => .ofFields (Entries.toFields table) :: Entries.tablesToJson tables
end

/-- A document so far, and the path of the table that takes the next assignment. -/
structure Document where
  current : List String := []
  root : Entries := []

namespace Document

def add? (d : Document) : Statement → Option Document
  | .assign path value =>
      (d.root.within? (Entries.assign? value path) d.current).map fun root => { d with root }
  | .table path => do
      let key ← path.getLast?
      let root ← d.root.within? (Entries.openTable? key) path.dropLast
      pure { current := path, root }
  | .element path => do
      let key ← path.getLast?
      let root ← d.root.within? (Entries.openElement? key) path.dropLast
      pure { current := path, root }

def ofStatements? (statements : List Statement) : Option Document :=
  statements.foldlM add? {}

def toJson (d : Document) : Json := .ofFields (Entries.toFields d.root)

end Document
end StreamScope.Toml
