import Simgen.Compile

/-! The command line: options, positional arguments, and what a run prints. -/
namespace Simgen.CommandLine

/-- What the arguments ask for. -/
structure Options where
  projectDir : String
  output : String
  level : Level
  config : Option String
  sets : List String
  deriving DecidableEq

/-- Why arguments end the program at once. -/
inductive Stop where
  | help
  | afterHelp
  | unrecognized (argument : String)
  | noValue (option : String)
  | duplicate (option value : String)
  | noLevel (option value : String)
  | missing (names : List String)
  deriving DecidableEq

/-- The usage text. -/
def usage : String :=
  "Usage: vulsim [--log <log>] [--config <config>] [-s <set...>] [--] <projdir> <output>\n" ++
    "\n" ++
    "Compile VulSim bundle and combine descriptors into C++ simulation units.\n" ++
    "\n" ++
    "Positional Arguments:\n" ++
    "  projdir           project directory holding `bundle/`, `combine/` and `cpp/`\n" ++
    "  output            output directory; created if missing, must be empty\n" ++
    "                    otherwise\n" ++
    "\n" ++
    "Options:\n" ++
    "  --log             logging level\n" ++
    "  --config          configuration file, merged over `<projdir>/vulsim.toml`\n" ++
    "  -s, --set         set a configuration variable (key=value)\n" ++
    "  --help, help      display usage information\n"

namespace Stop

/-- The beginning of a message on the value of an option. -/
def onValue (option value : String) : String :=
  "Error parsing option '" ++ option ++ "' with value '" ++ value ++ "': "

def message : Stop → String
  | help => usage
  | afterHelp => "Trailing arguments are not allowed after `help`."
  | unrecognized argument => "Unrecognized argument: " ++ argument ++ "\n"
  | noValue option => "No value provided for option '" ++ option ++ "'.\n"
  | duplicate option value => onValue option value ++ "duplicate values provided\n"
  | noLevel option value =>
    onValue option value ++
      "attempted to convert a string that doesn't match an existing log level\n"
  | missing names =>
    "Required positional arguments not provided:\n" ++
      String.join (names.map fun name => "    " ++ name ++ "\n")

/-- Asking for help is no failure. -/
def exitCode : Stop → Nat
  | help => 0
  | _ => 1

end Stop

/-- The arguments read so far. -/
structure Collected where
  positional : List String := []
  level : Option Level := none
  config : Option String := none
  sets : List String := []

namespace Collected

/-- Takes in a positional argument, of which there are two. -/
def addPositional (c : Collected) (argument : String) : Except Stop Collected :=
  if c.positional.length < 2 then .ok { c with positional := c.positional ++ [argument] }
  else .error (.unrecognized argument)

/-- Takes in an option and its value. -/
def addOption (c : Collected) (option value : String) : Except Stop Collected :=
  if option = "--log" then
    if c.level.isSome then .error (.duplicate option value)
    else match Level.ofName? value with
      | some level => .ok { c with level := some level }
      | none => .error (.noLevel option value)
  else if option = "--config" then
    if c.config.isSome then .error (.duplicate option value)
    else .ok { c with config := some value }
  else .ok { c with sets := c.sets ++ [value] }

/-- The options, when all arguments are read. -/
def finish (c : Collected) : Except Stop Options :=
  match c.positional with
  | projectDir :: output :: _ =>
    .ok { projectDir, output, level := c.level.getD .warn, config := c.config, sets := c.sets }
  | positional => .error (.missing (["projdir", "output"].drop positional.length))

end Collected

def isOption (argument : String) : Bool := ["--log", "--config", "--set", "-s"].contains argument

/-- Reads arguments from left to right. `--` ends the options; before it, `help` asks
for help wherever it is not the value of an option. No option may follow it, and help
is given once the other arguments are read. -/
def collect (c : Collected) (helpAsked optionsEnded : Bool) :
    List String → Except Stop Collected
  | [] => if helpAsked then .error .help else .ok c
  | argument :: rest =>
    if optionsEnded then do
      collect (← c.addPositional argument) helpAsked true rest
    else if argument = "--help" || argument = "help" then collect c true false rest
    else if argument = "--" then collect c helpAsked true rest
    else if argument.toList.head? = some '-' then
      if helpAsked then .error .afterHelp
      else if isOption argument then
        match rest with
        | [] => .error (.noValue argument)
        | value :: rest => do collect (← c.addOption argument value) false false rest
      else .error (.unrecognized argument)
    else do
      collect (← c.addPositional argument) helpAsked false rest

/-- Reads the arguments of the program. -/
def parse (arguments : List String) : Except Stop Options := do
  (← collect {} false false arguments).finish

/-- How a run of the program ends and what it prints. -/
structure Exit where
  code : Nat
  stdout : String
  stderr : String
  deriving DecidableEq

def lines (texts : List String) : String := String.join (texts.map fun t => t ++ "\n")

/-- The end of a run that arguments stopped. -/
def Stop.exit (s : Stop) : Exit :=
  if s.exitCode = 0 then { code := 0, stdout := s.message ++ "\n", stderr := "" }
  else
    { code := 1, stdout := ""
      stderr := s.message ++ "\nRun vulsim --help for more information.\n" }

open Files in
/-- Loads the settings and compiles. -/
def build (o : Options) : Job Unit := do
  let settings ← Settings.load o.projectDir o.config o.sets
  Compile.compile o.projectDir o.output settings

/-- The end of a run that compiled: the summary of the journal, then whether every
combine was generated. The journal itself is printed as far as the options admit. -/
def conclude (o : Options) (run : Traced Unit) : Exit :=
  let log := run.journal.printed o.level
  let failed (stdout : String) (e : Error) : Exit :=
    { code := 1, stdout, stderr := log ++ "Error: " ++ e.display ++ "\n" }
  match run.outcome with
  | .error e => failed "" e
  | .ok () =>
    let summary := lines run.journal.summary
    let dropped := run.journal.failures.length
    if dropped = 0 then
      { code := 0, stdout := summary ++ "Generated code in " ++ o.output ++ "\n", stderr := log }
    else
      failed summary { cause := .other (toString dropped ++ " combine(s) could not be generated") }

/-- Runs the program on its arguments. -/
def run (arguments : List String) : Files.Program Exit :=
  match parse arguments with
  | .error stop => .done stop.exit
  | .ok o => Files.Program.bind (build o) fun run => .done (conclude o run)

end Simgen.CommandLine
