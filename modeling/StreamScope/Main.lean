import StreamScope.CommandLine.Program

/-!
The program: reads the file that its command names, prints the outcome, and
measures how long this took.
-/

namespace StreamScope.CommandLine

/-- The number that the system gives an error, which may arrive negated. -/
def systemNumber (code : UInt32) : UInt32 := min code (0 - code)

def readFile (path : String) : IO (Except FileError String) := do
  try
    return .ok (← IO.FS.readFile path)
  catch e =>
    match e with
    | .noFileOrDirectory .. => return .error .notFound
    | .inappropriateType _ code _ =>
        return .error (if systemNumber code = 20 then .notDirectory else .isDirectory)
    | .invalidArgument _ code _ =>
        return .error (if systemNumber code = 36 then .nameTooLong else .other (toString e))
    | .userError _ => return .error .notText
    | e => return .error (.other (toString e))

/-- Runs the program and gives its exit status. -/
def execute (args : List String) : IO UInt32 := do
  let start ← IO.monoNanosNow
  let outcome ← run readFile args
  let stop ← IO.monoNanosNow
  let stdout ← IO.getStdout
  let stderr ← IO.getStderr
  for line in outcome.output.print ⟨stop - start⟩ do
    stdout.putStrLn line
  for line in outcome.errors do
    stderr.putStrLn line
  return UInt32.ofNat outcome.status

end StreamScope.CommandLine

def main (args : List String) : IO UInt32 := StreamScope.CommandLine.execute args
