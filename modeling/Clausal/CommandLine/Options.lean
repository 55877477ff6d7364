import Clausal.Sample
import Clausal.Text.Integer

/-!
# Options

What can be asked for on the command line, and why a command line is refused.
-/

namespace Clausal

/-- What the program does with a clause file. -/
inductive Mode where
  | resolution
  | cooking
deriving DecidableEq

def Mode.all : List (String × Mode) := [("resolution", resolution), ("cooking", cooking)]

/-- Switches that take no value. -/
inductive Flag where
  | help
  | interactive
  | verbose
  | history
deriving DecidableEq

/-- Switches that take a value. -/
inductive Setting where
  | domain
  | maxRounds
  | dot
  | save
  | load
deriving DecidableEq

inductive Switch where
  | flag (f : Flag)
  | setting (s : Setting)
deriving DecidableEq

namespace Switch

/-- The switches by name, in the order in which they are listed. -/
def all : List (String × Switch) :=
  [("-h", flag .help), ("--help", flag .help), ("--domain", setting .domain),
    ("--interactive", flag .interactive), ("--max-rounds", setting .maxRounds),
    ("--verbose", flag .verbose), ("--history", flag .history), ("--dot", setting .dot),
    ("--save", setting .save), ("--load", setting .load)]

/-- The name of a switch in messages: all its names. -/
def title (s : Switch) : String := "/".intercalate ((all.filter (·.2 = s)).map (·.1))

def named? (name : String) : Option Switch := (all.find? (·.1 = name)).map (·.2)

end Switch

/-- A limit on the rounds of a run. -/
inductive RoundLimit where
  | unlimited
  | rounds (number : Int)
  /-- A limit without a number. -/
  | blank
deriving DecidableEq

/-- The number of rounds at the limit. -/
def RoundLimit.number? : RoundLimit → Option Int
  | rounds number => some number
  | _ => none

/-- Everything that the command line says. -/
structure Options where
  mode : Option Mode := none
  clauses : Option String := none
  commands : Option String := none
  sample : Option Sample := none
  interactive : Bool := false
  maxRounds : RoundLimit := .unlimited
  verbose : Bool := false
  history : Bool := false
  dot : Option String := none
  save : Option String := none
  load : Option String := none

/-- Why a command line is refused. -/
inductive UsageError where
  /-- An abbreviation of several switches. -/
  | ambiguous (text : String) (names : List String)
  /-- A switch without its value. -/
  | valueExpected (s : Switch)
  /-- A value for a switch that takes none. -/
  | valueIgnored (s : Switch) (value : String)
  /-- A value that is no integer. -/
  | invalidInteger (s : Switch) (value : String)
  /-- A value that is not among the choices. -/
  | invalidChoice (title value : String) (choices : List String)
  /-- Arguments that mean nothing. -/
  | unrecognized (texts : List String)
  /-- Neither mode nor sample. -/
  | modeRequired
  /-- No clause file. -/
  | clausesRequired
  /-- A clause file without a goal. -/
  | goalRequired
  /-- No commands. -/
  | commandsRequired

def UsageError.message : UsageError → String
  | ambiguous text names =>
    "ambiguous option: " ++ text ++ " could match " ++ ", ".intercalate names
  | valueExpected s => "argument " ++ s.title ++ ": expected one argument"
  | valueIgnored s value =>
    "argument " ++ s.title ++ ": ignored explicit argument " ++ Text.quoted value
  | invalidInteger s value => "argument " ++ s.title ++ ": invalid int value: " ++ Text.quoted value
  | invalidChoice title value choices =>
    "argument " ++ title ++ ": invalid choice: " ++ Text.quoted value ++ " (choose from " ++
      ", ".intercalate (choices.map Text.quoted) ++ ")"
  | unrecognized texts => "unrecognized arguments: " ++ " ".intercalate texts
  | modeRequired => "a mode (resolution or cooking) or --domain is required"
  | clausesRequired => "a clause file is required"
  | goalRequired => "the clause file holds no goal"
  | commandsRequired => "cooking mode needs a command file or --interactive"

def usage : String :=
  "usage: refute [-h] [--domain \x7bsyllogism,chain,birds,cooking\x7d] [--interactive]\n" ++
  "              [--max-rounds MAX_ROUNDS] [--verbose] [--history] [--dot DOT]\n" ++
  "              [--save SAVE] [--load LOAD]\n" ++
  "              [\x7bresolution,cooking\x7d] [clauses] [commands]\n"

def helpText : String :=
  usage ++ "\n" ++
  "Resolution refutation prover\n" ++
  "\n" ++
  "positional arguments:\n" ++
  "  \x7bresolution,cooking\x7d  Prove the last clause, or replay cooking commands\n" ++
  "  clauses               Clause file\n" ++
  "  commands              Command file (cooking mode)\n" ++
  "\n" ++
  "options:\n" ++
  "  -h, --help            show this help message and exit\n" ++
  "  --domain \x7bsyllogism,chain,birds,cooking\x7d\n" ++
  "                        Run a bundled sample problem\n" ++
  "  --interactive         Read cooking commands from the prompt\n" ++
  "  --max-rounds MAX_ROUNDS\n" ++
  "                        Give up after this many resolution rounds\n" ++
  "  --verbose             Round-by-round output\n" ++
  "  --history             Print round history\n" ++
  "  --dot DOT             Export DOT graph of the last proof\n" ++
  "  --save SAVE           Save knowledge base to file\n" ++
  "  --load LOAD           Load knowledge base from file\n"

end Clausal
