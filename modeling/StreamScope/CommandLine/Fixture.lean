import StreamScope.Access.Basic
import StreamScope.Forest.Building
import StreamScope.Resolver.Config

/-!
Fixtures: the settings of a resolver, the calling access, and the stores with
their streams, written as one TOML document.
-/

namespace StreamScope.CommandLine

structure Fixture where
  config : Config
  access : Access
  /-- The stores in the order of their names. -/
  stores : List (StoreId × List Stream)

namespace Fixture

def streams? (store : Json) : Option (List Stream) := do
  match ← store.record? .toml ["streams"] with
  | [streams] => Json.defaulted [] (Json.asList? (Stream.ofJson? .toml)) streams
  | _ => none

def stores? : Json → Option (List (StoreId × List Stream))
  | .object fields => fields.mapM fun (name, store) => (streams? store).map (⟨name⟩, ·)
  | _ => none

def ofJson? (j : Json) : Option Fixture := do
  match ← j.record? .toml ["resolver", "access", "stores"] with
  | [config, access, stores] =>
      pure {
        config := ← Json.defaulted {} (fun j => (Config.ofJson .toml j).toOption) config
        access := ← Json.required (Access.ofJson? .toml) access
        stores := ← Json.defaulted [] stores? stores }
  | _ => none

def ofText? (text : String) : Option Fixture := (Toml.ofText? text).bind ofJson?

end Fixture
end StreamScope.CommandLine
