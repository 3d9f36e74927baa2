import StreamScope.Stream

/-!
The arguments of the program. Options come in a long form, with the value after
`=` or in the next argument, and in short forms that can be joined; `--` ends
them. Each option is given once, save that the general ones may be given both
before and after the command, where the later counts. Faults are found in the
order of the arguments, and a request for the version is met as soon as it is
read.
-/

namespace StreamScope.CommandLine

inductive Format where
  | text
  | json
deriving DecidableEq, Repr

def Format.ofName? : String → Option Format
  | "text" => some .text
  | "json" => some .json
  | _ => none

inductive Command where
  /-- Resolves a query, or else the default one, against a fixture. -/
  | resolve (fixture : String) (query : Option String) (state : StreamState) (legacy : Bool)
  /-- Checks a configuration file. -/
  | checkConfig (path : String)
deriving DecidableEq, Repr

inductive Invocation where
  | run (format : Format) (command : Command)
  | version
  | help
deriving DecidableEq, Repr

inductive UsageError where
  | unknownArgument (text : String)
  | unknownCommand (text : String)
  | missingCommand
  | missingOperand (name : String)
  | missingValue (option : String)
  | unexpectedValue (option : String)
  | invalidValue (name value : String)
  | repeated (option : String)
deriving DecidableEq, Repr

def UsageError.message : UsageError → String
  | .unknownArgument text => "unexpected argument '" ++ text ++ "' found"
  | .unknownCommand text => "unrecognized subcommand '" ++ text ++ "'"
  | .missingCommand => "a command is required: resolve or check-config"
  | .missingOperand name => "the required argument " ++ name ++ " was not provided"
  | .missingValue option => "a value is required for '--" ++ option ++ "'"
  | .unexpectedValue option => "no value is allowed for '--" ++ option ++ "'"
  | .invalidValue name value => "invalid value '" ++ value ++ "' for '" ++ name ++ "'"
  | .repeated option => "the argument '--" ++ option ++ "' cannot be used multiple times"

/-- An option: its long name, its letter if it has one, and for one that takes a value the test
that the value must pass. -/
structure OptionSpec where
  long : String
  letter : Option Char := none
  accepts : Option (String → Bool) := none

namespace OptionSpec

def verbose : OptionSpec := { long := "verbose", letter := some 'v' }

def help : OptionSpec := { long := "help", letter := some 'h' }

def version : OptionSpec := { long := "version", letter := some 'V' }

def format : OptionSpec := { long := "format", accepts := some fun v => (Format.ofName? v).isSome }

def fixture : OptionSpec :=
  { long := "fixture", letter := some 'f', accepts := some fun v => !v.isEmpty }

def state : OptionSpec := { long := "state", accepts := some fun v => (StreamState.ofName? v).isSome }

def legacy : OptionSpec := { long := "legacy" }

end OptionSpec

/-- What was read: options with their values, the last first, and operands in order. -/
structure Parsed where
  options : List (String × String) := []
  operands : List String := []

namespace Parsed

def value? (p : Parsed) (spec : OptionSpec) : Option String :=
  (p.options.find? fun given => given.1 = spec.long).map Prod.snd

def isGiven (p : Parsed) (spec : OptionSpec) : Bool := (p.value? spec).isSome

end Parsed

/-- An argument list is read until its end, a request for information, or a command. -/
inductive Reading where
  | done (parsed : Parsed)
  | information (invocation : Invocation)
  | command (parsed : Parsed) (name : String) (rest : List String)

/-- An operand: its name, and the test that it must pass. -/
structure OperandSpec where
  name : String
  accepts : String → Bool := fun _ => true

namespace OperandSpec

def query : OperandSpec := { name := "QUERY" }

def path : OperandSpec := { name := "PATH", accepts := fun v => !v.isEmpty }

end OperandSpec

/-- What the arguments may be at one place. Where no operand is allowed, the first word is a
command. -/
structure Grammar where
  options : List OptionSpec
  operands : List OperandSpec

/-- Whether an argument cannot be the value of the option before it. -/
def looksLikeOption (text : String) : Bool := "-".isPrefixOf text && text ≠ "-"

/-- Records an option, which must not have been given before. -/
def record (p : Parsed) (spec : OptionSpec) (value : String) : Except UsageError Parsed :=
  if p.isGiven spec then .error (.repeated spec.long)
  else if (spec.accepts.map fun accepts => accepts value).getD true then
    .ok { p with options := (spec.long, value) :: p.options }
  else .error (.invalidValue ("--" ++ spec.long) value)

/-- What an option asks for at once. -/
def information? (spec : OptionSpec) : Option Invocation :=
  if spec.long = OptionSpec.help.long then some .help
  else if spec.long = OptionSpec.version.long then some .version
  else none

/-- The effect of one argument: more is known, and an option may await its value, or the
arguments are answered at once. -/
inductive Step where
  | next (parsed : Parsed) (awaiting : Option OptionSpec)
  | answered (invocation : Invocation)

def readFlag (p : Parsed) (spec : OptionSpec) : Except UsageError Step :=
  match information? spec with
  | some invocation => .ok (.answered invocation)
  | none => (record p spec "").map (.next · none)

def readLong (g : Grammar) (p : Parsed) (body : List Char) : Except UsageError Step :=
  let name := String.ofList (body.takeWhile (· ≠ '='))
  match g.options.find? fun spec => spec.long = name with
  | none => .error (.unknownArgument ("--" ++ name))
  | some spec =>
      match spec.accepts, body.dropWhile (· ≠ '=') with
      | none, [] => readFlag p spec
      | none, _ :: _ => .error (.unexpectedValue spec.long)
      | some _, [] => .ok (.next p (some spec))
      | some _, _ :: value => (record p spec (String.ofList value)).map (.next · none)

/-- Reads joined letters; one that takes a value takes the letters after it, if there are any. -/
def readLetters (g : Grammar) : Parsed → List Char → Except UsageError Step
  | p, [] => .ok (.next p none)
  | p, c :: letters =>
      match g.options.find? fun spec => spec.letter = some c with
      | none => .error (.unknownArgument (String.ofList ['-', c]))
      | some spec =>
          match spec.accepts, letters with
          | some _, [] => .ok (.next p (some spec))
          | some _, '=' :: value => (record p spec (String.ofList value)).map (.next · none)
          | some _, value => (record p spec (String.ofList value)).map (.next · none)
          | none, _ =>
              match readFlag p spec with
              | .ok (.next p _) => readLetters g p letters
              | other => other

/-- Records an operand, for which there must be a place. -/
def addOperand (g : Grammar) (p : Parsed) (text : String) : Except UsageError Parsed :=
  match g.operands[p.operands.length]? with
  | none => .error (.unknownArgument text)
  | some spec =>
      if spec.accepts text then .ok { p with operands := p.operands ++ [text] }
      else .error (.invalidValue spec.name text)

/-- Reads arguments behind those parsed, while an option may await its value. -/
def read (g : Grammar) : Parsed → Option OptionSpec → List String → Except UsageError Reading
  | p, none, [] => .ok (.done p)
  | _, some spec, [] => .error (.missingValue spec.long)
  | p, some spec, value :: rest =>
      if looksLikeOption value then .error (.missingValue spec.long)
      else do
        let p ← record p spec value
        read g p none rest
  | p, none, argument :: rest =>
      let go (step : Except UsageError Step) : Except UsageError Reading :=
        match step with
        | .error e => .error e
        | .ok (.answered invocation) => .ok (.information invocation)
        | .ok (.next p awaiting) => read g p awaiting rest
      match argument.toList with
      | ['-', '-'] => (rest.foldlM (addOperand g) p).map .done
      | '-' :: '-' :: body => go (readLong g p body)
      | '-' :: c :: letters => go (readLetters g p (c :: letters))
      | _ =>
          if g.operands.isEmpty then .ok (.command p argument rest)
          else do
            let p ← addOperand g p argument
            read g p none rest

def general : List OptionSpec := [.verbose, .format, .help]

def programGrammar : Grammar := { options := .version :: general, operands := [] }

def resolveGrammar : Grammar :=
  { options := [.fixture, .state, .legacy] ++ general, operands := [.query] }

def checkConfigGrammar : Grammar := { options := general, operands := [.path] }

/-- The output format, which the arguments behind the command decide first. -/
def formatOf (outer inner : Parsed) : Format :=
  (((inner.value? .format).or (outer.value? .format)).bind Format.ofName?).getD .text

def resolveCommand (p : Parsed) : Except UsageError Command :=
  match p.value? .fixture with
  | none => .error (.missingValue OptionSpec.fixture.long)
  | some fixture =>
      let state := ((p.value? .state).bind StreamState.ofName?).getD .live
      .ok (.resolve fixture p.operands.head? state (p.isGiven .legacy))

def checkConfigCommand (p : Parsed) : Except UsageError Command :=
  match p.operands with
  | [] => .error (.missingOperand OperandSpec.path.name)
  | path :: _ => .ok (.checkConfig path)

/-- Reads the arguments of a command behind those of the program. -/
def readCommand (outer : Parsed) (g : Grammar) (make : Parsed → Except UsageError Command)
    (args : List String) : Except UsageError Invocation := do
  match ← read g {} none args with
  | .done inner => (make inner).map (.run (formatOf outer inner))
  | .information invocation => pure invocation
  | .command _ name _ => .error (.unknownCommand name)

/-- Help concerns the program, or the one command whose name alone may follow. -/
def readHelp : List String → Except UsageError Invocation
  | [] => .ok .help
  | name :: rest =>
      if ["resolve", "check-config", "help"].contains name then
        match rest with
        | [] => .ok .help
        | surplus :: _ => .error (.unknownCommand surplus)
      else .error (.unknownCommand name)

def Invocation.ofArguments (args : List String) : Except UsageError Invocation := do
  match ← read programGrammar {} none args with
  | .done _ => throw .missingCommand
  | .information invocation => pure invocation
  | .command outer "resolve" rest => readCommand outer resolveGrammar resolveCommand rest
  | .command outer "check-config" rest =>
      readCommand outer checkConfigGrammar checkConfigCommand rest
  | .command _ "help" rest => readHelp rest
  | .command _ name _ => throw (.unknownCommand name)

end StreamScope.CommandLine
