import StreamScope.Duration
import StreamScope.Query.Error
import StreamScope.Query.Parameter
import StreamScope.Toml.Parser

/-!
The settings of a resolver. The default query, used when a request sends none,
may have any form that the streams parameter has, but must not be empty. It is
taken as it stands: legacy spellings in it are left alone.
-/

namespace StreamScope

structure Config where
  conventions : Conventions := .standard
  defaultQuery : Json := .array [.object [("any", .ofStrings ["*"])]]
  timeout : Duration := .seconds 30
  param : String := "streams"

namespace Config

def defaultClauses (c : Config) : Except QueryError (List RawClause) := do
  let clauses ← (normalize c.conventions [] false (some c.defaultQuery)).mapError (.request c.param)
  if clauses.isEmpty then throw (.settings .emptyDefaultQuery)
  pure clauses

def fieldNames : List String := ["conventions", "default_query", "timeout", "param_name"]

/-- Conventions that are not given are the standard ones, with legacy prefixes. A fault in given
ones comes before any fault in the shape of the rest. -/
def ofJson (source : Json.Source) (j : Json) : Except Conventions.ReadError Config := do
  let fallback : Config := {}
  match j.fields? fieldNames with
  | some [conventions, defaultQuery, timeout, param] =>
      let conventions ← match conventions with
        | some value => Conventions.ofJson source value
        | none => pure fallback.conventions
      match Json.defaulted fallback.timeout (Duration.ofJson? source) timeout,
        Json.defaulted fallback.param Json.asString? param, j.isWithin source fieldNames with
      | some timeout, some param, true =>
          pure {
            conventions
            defaultQuery := defaultQuery.getD fallback.defaultQuery
            timeout
            param }
      | _, _, _ => throw .shape
  | _ => throw .shape

/-- Reads TOML text; text that does not parse and faulty conventions are told apart no further. -/
def ofText (text : String) : Except QueryError Config :=
  match (Toml.ofText? text).bind fun j => (ofJson .toml j).toOption with
  | some config => .ok config
  | none => .error (.settings .unreadable)

end Config

/-- Conventions from TOML text. -/
def Conventions.ofText (text : String) : Except QueryError Conventions :=
  match (Toml.ofText? text).bind fun j => (Conventions.ofJson .toml j).toOption with
  | some conventions => .ok conventions
  | none => .error (.settings .unreadable)

end StreamScope
