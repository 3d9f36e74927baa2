import StreamScope.CommandLine.Arguments
import StreamScope.CommandLine.Fixture
import StreamScope.CommandLine.Report

/-!
The commands of the program. Each reads one file and answers with lines or a
JSON value; a failure ends it with status 1, and arguments that make no sense
with status 2.
-/

namespace StreamScope.CommandLine

/-- Why a file could not be read, as the system puts it. -/
inductive FileError where
  | notFound
  /-- A part of the path before its end names a file. -/
  | notDirectory
  | isDirectory
  | nameTooLong
  | notText
  | other (reason : String)
deriving DecidableEq, Repr

def FileError.message : FileError → String
  | .notFound => "No such file or directory (os error 2)"
  | .notDirectory => "Not a directory (os error 20)"
  | .isDirectory => "Is a directory (os error 21)"
  | .nameTooLong => "File name too long (os error 36)"
  | .notText => "stream did not contain valid UTF-8"
  | .other reason => reason

inductive Failure where
  | file (error : FileError)
  | unreadableFixture (path : String) (error : FileError)
  | invalidFixture (path : String)
  | invalidStreams (store : StoreId) (fault : Forest.Fault)
  | takenStore (store : StoreId)
  | access (error : AccessError)
  | config (error : QueryError)
  /-- No resolver could be made. -/
  | setup (error : ResolveError)
  | resolution (error : ResolveError)

namespace Failure

def message : Failure → String
  | .file error => error.message
  | .unreadableFixture path _ => "cannot read fixture " ++ path
  | .invalidFixture path => "invalid fixture " ++ path
  | .invalidStreams store _ => "invalid streams in store " ++ store.text
  | .takenStore store => Registry.takenMessage store
  | .access error => error.message
  | .config error => error.message
  | .setup error => error.message
  | .resolution error => error.id ++ ": " ++ error.message

/-- What lies behind the failure. -/
def cause? : Failure → Option String
  | .unreadableFixture _ error => some error.message
  | .invalidStreams _ fault => some fault.message
  | _ => none

/-- The failure as it is reported to the user. -/
def report (f : Failure) : List String :=
  (match f with
    | .resolution error => ["✗ " ++ error.message]
    | _ => []) ++
  ["Error: " ++ f.message] ++
  match f.cause? with
  | some cause => ["", "Caused by:", "    " ++ cause]
  | none => []

end Failure

inductive Output where
  | lines (text : List String)
  | report (report : Report)
  | json (value : Json)

/-- The lines of an output, given the time that the program took. -/
def Output.print (elapsed : Duration) : Output → List String
  | .lines text => text
  | .report r => r.lines elapsed
  | .json value => [value.print]

structure Outcome where
  status : Nat := 0
  output : Output := .lines []
  errors : List String := []

namespace Fixture

/-- One store of a fixture, grown and registered. -/
def addStore (r : Registry) (entry : StoreId × List Stream) : Except Failure Registry := do
  let forest ← (Forest.ofStreams entry.2).mapError (.invalidStreams entry.1)
  match r.register? entry.1 (.ofForest forest) with
  | some r => pure r
  | none => throw (.takenStore entry.1)

def registry (f : Fixture) : Except Failure Registry := f.stores.foldlM addStore .empty

end Fixture

/-- The file that a command reads. -/
def Command.path : Command → String
  | .resolve fixture _ _ _ => fixture
  | .checkConfig path => path

def answerQuery (format : Format) (path : String) (request : Request)
    (file : Except FileError String) : Except Failure Output := do
  let text ← file.mapError (.unreadableFixture path)
  match Fixture.ofText? text with
  | none => throw (.invalidFixture path)
  | some fixture =>
      let registry ← fixture.registry
      let caller ← (Caller.ofAccess fixture.config.conventions fixture.access).mapError .access
      let resolver ← (Resolver.ofConfig fixture.config registry).mapError .setup
      let q ← (resolver.resolve caller request).mapError .resolution
      let report : Report := {
        shown := if request.legacy then resolver.toLegacy q else q
        predicates := q.compileAll }
      match format with
      | .text => pure (.report report)
      | .json => pure (.json report.toJson)

/-- The file must hold settings with a default query that has clauses. -/
def answerCheck (path : String) (file : Except FileError String) : Except Failure Output := do
  let text ← file.mapError .file
  let config ← (Config.ofText text).mapError .config
  let clauses ← config.defaultClauses.mapError .config
  pure (.lines [
    "✓ Configuration " ++ path ++ " is valid",
    "  Default store: " ++ config.conventions.defaultStore.text,
    "  Default query: " ++ toString clauses.length ++ " clause(s)",
    "  Timeout: " ++ config.timeout.text])

/-- Runs a command on the file that it reads. -/
def Command.run (format : Format) (command : Command) (file : Except FileError String) : Outcome :=
  let result := match command with
    | .resolve fixture query state legacy =>
        answerQuery format fixture { streams := query.map .string, state, legacy } file
    | .checkConfig path => answerCheck path file
  match result with
  | .ok output => { output }
  | .error failure => { status := 1, errors := failure.report }

def versionOutcome : Outcome := { output := .lines ["sqs 0.1.0"] }

def helpOutcome : Outcome :=
  { output := .lines [
      "Resolve streams queries against caller permissions",
      "",
      "Usage: sqs [--format text|json] [-v|--verbose] COMMAND",
      "",
      "Commands:",
      "  resolve -f|--fixture FILE [QUERY] [--state default|trashed|all] [--legacy]",
      "  check-config PATH"] }

def usageOutcome (e : UsageError) : Outcome :=
  { status := 2, errors := ["error: " ++ e.message, "", "For more information, try '--help'."] }

/-- Runs the program on its arguments, with `read` for the file that the command names. -/
def run [Monad m] (read : String → m (Except FileError String)) (args : List String) : m Outcome :=
  match Invocation.ofArguments args with
  | .error e => pure (usageOutcome e)
  | .ok .version => pure versionOutcome
  | .ok .help => pure helpOutcome
  | .ok (.run format command) => do
      let file ← read command.path
      pure (command.run format file)

end StreamScope.CommandLine
