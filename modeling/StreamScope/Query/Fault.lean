import StreamScope.Query.RawClause
import StreamScope.Text.Quoted

/-!
What can be wrong with a streams parameter. Every message opens with the name of
the parameter; JSON values and clauses are shown compactly.
-/

namespace StreamScope

/-- What is wrong with a clause as a whole. -/
inductive ClauseFault where
  | missingInclusion
  | unknownProperty (key : String)
  | notArray (part : Combinator) (found : Json)
  | notId (part : Combinator) (found : Json)
  | wildcardOutsideAny (part : Combinator)
  | wildcardAmongIds
  | wildcardWithAll
  | noStream

namespace ClauseFault

def message : ClauseFault → String
  | .missingInclusion => "must contain at least one of \"any\" or \"all\" property"
  | .unknownProperty key => "unknown property " ++ Text.quoteString key
  | .notArray part found =>
      "value of " ++ Text.quoteString part.key ++ " must be an array, found " ++ found.print
  | .notId part found =>
      "all items of " ++ Text.quoteString part.key ++ " must be stream ids, found " ++ found.print
  | .wildcardOutsideAny part =>
      "\"*\" is only allowed in \"any\", found in " ++ Text.quoteString part.key
  | .wildcardAmongIds => "\"*\" cannot be mixed with other stream ids in \"any\""
  | .wildcardWithAll => "\x7bany: \"*\"\x7d cannot be mixed with \"all\""
  | .noStream => "must reference at least one stream in \"any\" or \"all\""

end ClauseFault

/-- What is wrong with one id. -/
inductive IdFault where
  | markedWildcard (marker : Char)
  | empty
  | innerMarker (marker : Char)
  | innerWildcard
  | forbiddenCharacter (c : Char)
deriving DecidableEq, Repr

namespace IdFault

def message : IdFault → String
  | .markedWildcard marker => "\"" ++ String.singleton marker ++ "*\" is not valid"
  | .empty => "stream id must not be empty"
  | .innerMarker marker => Text.quoteChar marker ++ " is only allowed as the first character"
  | .innerWildcard => "\"*\" is only valid as a complete stream id"
  | .forbiddenCharacter c => "forbidden character " ++ Text.quoteChar c

end IdFault

inductive RequestFault where
  | malformedJson
  | mixedForms
  | unexpectedValue (found : Json)
  | unexpectedItem (found : Json)
  | clause (sent : RawClause) (fault : ClauseFault)
  | id (full : String) (fault : IdFault)
  | mixedStores (sent : RawClause) (first second : String)

namespace RequestFault

def reason : RequestFault → String
  | .malformedJson => "malformed JSON"
  | .mixedForms => "streams queries and stream ids cannot be mixed"
  | .unexpectedValue found =>
      "expected a stream id, a list of stream ids or streams queries, found " ++ found.print
  | .unexpectedItem found => "items must be stream ids or streams queries, found " ++ found.print
  | .clause sent fault => "streams query " ++ sent.text ++ ": " ++ fault.message
  | .id full fault => "invalid stream id " ++ Text.quoteString full ++ ": " ++ fault.message
  | .mixedStores sent first second =>
      "streams query " ++ sent.text ++ " must be grouped by store, found " ++
        Text.quoteString first ++ " and " ++ Text.quoteString second

def message (param : String) (fault : RequestFault) : String :=
  "error in \"" ++ param ++ "\" parameter: " ++ fault.reason

end RequestFault
end StreamScope
