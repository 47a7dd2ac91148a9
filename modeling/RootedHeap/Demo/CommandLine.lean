import RootedHeap.Demo.Scenario
import RootedHeap.Text.Decimal

/-! # Command line

Options may be long (`--threads 2`, `--threads=2`) or short (`-s NAME`, `-sNAME`, `-s=NAME`), and
short flags may be written together. There are no other arguments. An option that awaits a value is
completed by the next argument unless that looks like an option; it is taken into account, and its
value checked, when the next option is read or at the end.
-/

namespace RootedHeap.Demo

/-- The options there are. -/
inductive Opt where
  | scenario
  | all
  | list
  | threads
  | chainLen
  | json
  | verbose
  | help
  | version
  deriving DecidableEq, Repr

namespace Opt

def ofLong? (name : String) : Option Opt :=
  match name with
  | "scenario" => some scenario
  | "all" => some all
  | "list" => some list
  | "threads" => some threads
  | "chain-len" => some chainLen
  | "json" => some json
  | "verbose" => some verbose
  | "help" => some help
  | "version" => some version
  | _ => none

def ofShort? (c : Char) : Option Opt :=
  match c with
  | 's' => some scenario
  | 'v' => some verbose
  | 'h' => some help
  | 'V' => some version
  | _ => none

def takesValue : Opt → Bool
  | scenario | threads | chainLen => true
  | _ => false

/-- How the option is shown in messages. -/
def text : Opt → String
  | scenario => "--scenario <NAME>"
  | all => "--all"
  | list => "--list"
  | threads => "--threads <THREADS>"
  | chainLen => "--chain-len <CHAIN_LEN>"
  | json => "--json"
  | verbose => "--verbose"
  | help => "--help"
  | version => "--version"

end Opt

/-- What is asked for. -/
structure Args where
  scenario : Option String := none
  all : Bool := false
  list : Bool := false
  threads : Nat := 4
  chainLen : Nat := 2000
  json : Bool := false
  verbose : Bool := false
  deriving DecidableEq, Repr

/-- Why a command line is not run. -/
inductive UsageError where
  | unknownArgument (arg : String)
  | missingValue (opt : Opt)
  | invalidNumber (opt : Opt) (value : String) (why : Text.NumberError)
  | conflict (first second : Opt)
  | repeated (opt : Opt)
  | unneededValue (opt : Opt) (value : String)
  | help
  | version
  deriving DecidableEq, Repr

namespace UsageError

def message : UsageError → String
  | unknownArgument arg => "error: unexpected argument '" ++ arg ++ "' found"
  | missingValue opt =>
    "error: a value is required for '" ++ opt.text ++ "' but none was supplied"
  | invalidNumber opt value why =>
    "error: invalid value '" ++ value ++ "' for '" ++ opt.text ++ "': " ++ why.message
  | conflict first second =>
    "error: the argument '" ++ first.text ++ "' cannot be used with '" ++ second.text ++ "'"
  | repeated opt => "error: the argument '" ++ opt.text ++ "' cannot be used multiple times"
  | unneededValue opt value =>
    "error: unexpected value '" ++ value ++ "' for '" ++ opt.text ++
      "' found; no more were expected"
  | help => "Build cyclic object graphs and watch them get collected"
  | version => "gcptr 0.1.0"

/-- The exit code; asking for help or the version is no failure. -/
def exitCode : UsageError → Nat
  | help | version => 0
  | _ => 2

end UsageError

/-- A command line read so far. -/
structure Reading where
  args : Args := {}
  /-- The options taken into account, in order. -/
  seen : List Opt := []
  /-- The option read last and not yet taken into account, with its value if there is one. -/
  pending : Option (Opt × Option String) := none

namespace Reading

/-- The number an option's value stands for. -/
def number (opt : Opt) (value : String) : Except UsageError Nat :=
  match Text.readNumber Text.wordLimit value with
  | .ok n => .ok n
  | .error why => .error (.invalidNumber opt value why)

/-- Take a value into account. -/
def store (args : Args) (opt : Opt) (value : String) : Except UsageError Args :=
  match opt with
  | .scenario => .ok { args with scenario := some value }
  | .threads => return { args with threads := ← number opt value }
  | .chainLen => return { args with chainLen := ← number opt value }
  | _ => .ok args

/-- Take a flag into account. -/
def raise (args : Args) (opt : Opt) : Except UsageError Args :=
  match opt with
  | .all => .ok { args with all := true }
  | .list => .ok { args with list := true }
  | .json => .ok { args with json := true }
  | .verbose => .ok { args with verbose := true }
  | .help => .error .help
  | .version => .error .version
  | _ => .ok args

/-- Take an option with its value into account. -/
def accept (r : Reading) (opt : Opt) (value : String) : Except UsageError Reading := do
  if r.seen.contains opt then .error (.repeated opt)
  else return { r with args := ← store r.args opt value, seen := r.seen ++ [opt] }

/-- Take the pending option into account. -/
def resolve (r : Reading) : Except UsageError Reading :=
  match r.pending with
  | none => .ok r
  | some (opt, none) => .error (.missingValue opt)
  | some (opt, some value) => { r with pending := none }.accept opt value

/-- Read a flag. -/
def flag (r : Reading) (opt : Opt) : Except UsageError Reading := do
  let r ← r.resolve
  if r.seen.contains opt then .error (.repeated opt)
  else return { r with args := ← raise r.args opt, seen := r.seen ++ [opt] }

/-- Read an option that takes a value, attached or still to come. -/
def valued (r : Reading) (opt : Opt) (attached : Option String) : Except UsageError Reading := do
  let r ← r.resolve
  match attached with
  | some value => r.accept opt value
  | none => return { r with pending := some (opt, none) }

/-- Read a long option, without its dashes. -/
def long (r : Reading) (chars : List Char) : Except UsageError Reading :=
  let name := String.ofList (chars.takeWhile (· ≠ '='))
  let value := match chars.dropWhile (· ≠ '=') with
    | [] => none
    | _ :: value => some (String.ofList value)
  match Opt.ofLong? name with
  | none => .error (.unknownArgument ("--" ++ name))
  | some opt =>
    if opt.takesValue then r.valued opt value
    else
      match value with
      | none => r.flag opt
      | some value => .error (.unneededValue opt value)

/-- Read short options written together, without their dash. -/
def short (r : Reading) : List Char → Except UsageError Reading
  | [] => .ok r
  | c :: rest =>
    match Opt.ofShort? c with
    | none => .error (.unknownArgument (String.ofList ['-', c]))
    | some opt =>
      if opt.takesValue then
        match rest with
        | [] => r.valued opt none
        | '=' :: value => r.valued opt (some (String.ofList value))
        | value => r.valued opt (some (String.ofList value))
      else do (← r.flag opt).short rest

/-- Read an argument that is no option: the value that an option awaits, or nothing there is. -/
def plain (r : Reading) (arg : String) : Except UsageError Reading :=
  match r.pending with
  | some (opt, none) => .ok { r with pending := some (opt, some arg) }
  | _ => .error (.unknownArgument arg)

/-- Read an argument. -/
def arg (r : Reading) (arg : String) : Except UsageError Reading :=
  match arg.toList with
  | '-' :: '-' :: name => r.long name
  | '-' :: c :: rest => r.short (c :: rest)
  | _ => r.plain arg

/-- Read all arguments. After `--` every argument is one too many. -/
def all (r : Reading) : List String → Except UsageError Reading
  | [] => .ok r
  | "--" :: rest =>
    match rest with
    | [] => .ok r
    | arg :: _ => .error (.unknownArgument arg)
  | arg :: rest => do (← r.arg arg).all rest

/-- Which of two conflicting options, if both were given, came first. -/
def conflicting (r : Reading) : Option (Opt × Opt) :=
  match r.seen.filter fun opt => opt == .scenario || opt == .all with
  | [first, second] => some (first, second)
  | _ => none

end Reading

/-- Read a command line. -/
def Args.parse (args : List String) : Except UsageError Args := do
  let r ← ({ } : Reading).all args
  let r ← r.resolve
  match r.conflicting with
  | some (first, second) => .error (.conflict first second)
  | none => .ok r.args

/-- What a run of the command writes, and how it ends. -/
structure Output where
  stdout : String
  stderr : String
  exitCode : Nat
  deriving DecidableEq, Repr

namespace Args

def options (a : Args) : Options := ⟨a.threads, a.chainLen⟩

/-- Run the demonstrations asked for, up to the first that fails. -/
def execute (a : Args) : Except Problem (List Report) :=
  match a.scenario with
  | some name => return [← Scenario.runNamed a.options name]
  | none => Scenario.all.mapM (·.run a.options)

/-- Several reports as an indented JSON array. -/
def prettyReports (reports : List Report) : String :=
  match reports with
  | [] => "[]"
  | reports =>
    "[\n" ++ String.intercalate ",\n" (reports.map fun r => "  " ++ r.pretty "  ") ++ "\n]"

/-- Run the command. -/
def run (a : Args) : Output :=
  if a.list then ⟨String.join (Scenario.all.map fun s => s.name ++ "\n"), "", 0⟩
  else
    match a.execute with
    | .error problem => ⟨"", "Scenario failed: " ++ problem.message ++ "\n", 1⟩
    | .ok reports =>
      if a.json then ⟨prettyReports reports ++ "\n", "", 0⟩
      else ⟨String.join (reports.map fun r => r.text ++ "\n"), "", 0⟩

end Args

end RootedHeap.Demo
