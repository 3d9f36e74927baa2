import StreamScope.Backend
import StreamScope.Duration
import StreamScope.Query.Error

/-!
Why a request has no scope. A malformed request, an unknown stream and a
forbidden one are the caller's fault; faulty settings, a failed look-up and the
end of the time are not.
-/

namespace StreamScope

inductive ResolveError where
  | query (error : QueryError)
  /-- Streams that do not exist, as full ids in the order of the request. -/
  | unknownStreams (ids : List StreamId)
  /-- A stream that the caller may not read, as a full id. -/
  | forbidden (id : StreamId)
  | lookup (error : LookupError)
  /-- A level that could not be found out. -/
  | permission (error : LookupError)
  | timeout (limit : Duration)

namespace ResolveError

/-- A failed look-up while a level was sought. -/
def permissionMessage (error : LookupError) : String := "store error: " ++ error.message

def message : ResolveError → String
  | .query error => error.message
  | .unknownStreams ids => "unknown referenced streams: " ++ StreamId.joined ids
  | .forbidden id => "forbidden: no read permission on stream " ++ id.text
  | .lookup error => "stream lookup failed: " ++ error.message
  | .permission error => "permission evaluation failed: " ++ permissionMessage error
  | .timeout limit => "streams query resolution timed out after " ++ limit.text

/-- A name for the kind of error that callers can rely on. -/
def id : ResolveError → String
  | .query (.request _ _) => "invalid-request-structure"
  | .query (.settings _) => "unexpected-error"
  | .unknownStreams _ => "unknown-referenced-resource"
  | .forbidden _ => "forbidden"
  | .lookup _ => "unexpected-error"
  | .permission _ => "unexpected-error"
  | .timeout _ => "timeout"

/-- Whether the caller is at fault. -/
def isClientError : ResolveError → Bool
  | .query error => error.isStructure
  | .unknownStreams _ => true
  | .forbidden _ => true
  | _ => false

end ResolveError
end StreamScope
