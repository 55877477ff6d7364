import Clausal.ClauseFile
import Clausal.CommandLine.Arguments
import Clausal.CommandLine.Directory
import Clausal.Cooking.Assistant
import Clausal.Cooking.Prompt
import Clausal.Engine.Saved

/-!
# The program

What the program does for a command line: it builds the knowledge base, proves a goal or carries out
commands, and then prints histories and writes files.
-/

namespace Clausal

/-- What the program has written so far. -/
structure Console where
  out : String := ""
  err : String := ""
  directory : Directory := {}

/-- How the program ends before its end. -/
inductive Halt where
  /-- With an exit code. -/
  | exit (code : Nat)
  /-- With a fault. -/
  | fault (fault : Fault)

/-- A part of the program. -/
abbrev Program := EStateM Halt Console

namespace Program

def say (text : String) : Program Unit := modify fun c => { c with out := c.out ++ text }

def exit {α : Type} (code : Nat) (message : String) : Program α := do
  modify fun c => { c with err := c.err ++ message }
  throw (.exit code)

def refuse {α : Type} (error : UsageError) : Program α :=
  exit 2 (usage ++ "refute: error: " ++ error.message ++ "\n")

/-- Ends the program if there is no result. -/
def orFault {α : Type} : Except Fault α → Program α
  | .ok a => pure a
  | .error fault => throw (.fault fault)

/-- Ends the program with a message if a text is no clause. -/
def orError {α : Type} : Except ParseError α → Program α
  | .ok a => pure a
  | .error error => exit 1 ("error: " ++ error.message ++ "\n")

def readFile (path : String) : Program String := do orFault ((← get).directory.read path)

def writeFile (path text : String) : Program Unit := do
  let directory ← orFault ((← get).directory.write path text)
  modify fun c => { c with directory }

/-- A value that is given and not empty. -/
def given (value : Option String) : Option String := value.filter (· ≠ "")

/-! ## The beginning -/

/-- What is to be done with the knowledge base. -/
inductive Work where
  | prove (goal : String)
  | carryOut (commands : List String)
  /-- Commands are typed at the prompt. -/
  | converse

def options (arguments : List String) : Program Options :=
  match Options.read arguments with
  | .ok options => pure options
  | .error .help => do
    say helpText
    throw (.exit 0)
  | .error (.usage error) => refuse error

/-- The work on a clause file in cooking mode. -/
def cookingWork (o : Options) : Program Work :=
  if o.interactive then pure .converse
  else match given o.commands with
    | some path => do return .carryOut (ClauseFile.read (← readFile path))
    | none => refuse .commandsRequired

/-- The lines for the knowledge base, and the work. -/
def linesAndWork (o : Options) (mode : Mode) (lines : List String) : Program (List String × Work) :=
  match mode with
  | .resolution =>
    match ClauseFile.splitGoal lines with
    | (lines, some goal) => pure (lines, .prove goal)
    | (_, none) => refuse .goalRequired
  | .cooking => do return (lines, ← cookingWork o)

def fromFiles (o : Options) : Program (Engine × Work) := do
  let some mode := o.mode | refuse .modeRequired
  if o.clauses.isNone && (given o.load).isNone then refuse .clausesRequired
  let engine ← match given o.load with
    | some path => do orFault (Engine.load (← readFile path))
    | none => pure {}
  let lines ← match given o.clauses with
    | some path => do pure (ClauseFile.read (← readFile path))
    | none => pure []
  let (lines, work) ← linesAndWork o mode lines
  let (result, engine) := engine.addAll lines
  orError result
  return (engine, work)

def fromSample (sample : Sample) : Program (Engine × Work) := do
  say ("Domain: " ++ sample.name ++ " -- " ++ sample.description ++ "\n")
  return (sample.engine, match sample.task with
    | .prove goal => .prove goal
    | .carryOut commands => .carryOut commands)

/-- Prints the state of the engine, up to a clause whose number is too long to be written. -/
def sayState (engine : Engine) : Program Unit := do
  if engine.knowledge.toList.any fun c => Text.isLong c.id then
    say (engine.stateTextBefore fun c => Text.isLong c.id)
    throw (.fault .longNumber)
  say engine.stateText

/-- The engine and the work that the options ask for. -/
def prepare (o : Options) : Program (Engine × Work) := do
  let (engine, work) ← match o.sample with
    | some sample => fromSample sample
    | none => fromFiles o
  if o.verbose then sayState engine
  return (engine, work)

/-! ## The work -/

/-- What is printed when the typing is interrupted. -/
def interruption : String := "\nInterrupted.\n"

/-- Can runs not be held against their limit? A run that begins with a conflict never is. -/
def stuck (o : Options) (engine : Engine) : Bool :=
  o.maxRounds = .blank && (Engine.findConflict [] engine.knowledge.toList).isNone

def assistant (o : Options) (engine : Engine) : Assistant :=
  { engine, limit := o.maxRounds.number?, verbose := o.verbose }

def obey (o : Options) (a : Assistant) (line : String) : Program Assistant := do
  if stuck o a.engine && Assistant.asks line then
    say (Assistant.heading (Text.trimmed line))
    throw (.fault .blankLimit)
  let (printed, a) := a.step line
  say printed
  return a

/-- Asks for the next of the typed lines. -/
def nextTyped (ending : Prompt.Ending) : StateT (List (List Char)) Program (Option (List Char)) := fun lines =>
  match lines with
  | [] => do
    say (Prompt.mark ++ (if ending = .interrupted then interruption else ""))
    return (none, [])
  | line :: lines => do
    say Prompt.mark
    return (some line, lines)

/-- Carries out the commands typed at the prompt. -/
def dialogue (o : Options) (ending : Prompt.Ending) (a : Assistant) (lines : List (List Char)) : Program Assistant :=
  let obeyed (a : Assistant) (text : String) : StateT (List (List Char)) Program Assistant := obey o a text
  (Prompt.converse (fun _ => true) (nextTyped ending) obeyed (lines.length + 1) a).run' lines

/-- Does the work. Answers with the engine and the outcomes of its runs. -/
def perform (o : Options) (typed : String) (ending : Prompt.Ending) (engine : Engine) :
    Work → Program (Engine × List Outcome)
  | .prove text => do
    let goal ← orError (Clause.parse 0 text)
    if stuck o engine then throw (.fault .blankLimit)
    let (run, engine) := (engine.aim goal).pursue goal o.maxRounds.number?
    if o.verbose then say (engine.runText run)
    let outcome := engine.outcome run
    say (← orFault outcome.proofText)
    return (engine, [outcome])
  | .carryOut commands => do
    let a ← commands.foldlM (obey o) (assistant o engine)
    return (a.engine, a.outcomes)
  | .converse => do
    say Prompt.greeting
    let a ← dialogue o ending (assistant o engine) (Text.lines typed)
    return (a.engine, a.outcomes)

/-! ## The end -/

def exportGraph (outcomes : List Outcome) (path : String) : Program Unit :=
  match (outcomes.filter (·.proven)).getLast? with
  | none => say "No proof found; nothing to export.\n"
  | some outcome => do
    writeFile path (← orFault outcome.graph)
    say (Outcome.graphNotice path)

/-- Saves the engine. A counter that is too long to be written ends the text before it. -/
def saveTo (path : String) (engine : Engine) : Program Unit := do
  if Text.isLong engine.counter then
    writeFile path (Saved.opening engine.names)
    throw (.fault .longNumber)
  writeFile path engine.save
  say ("Knowledge base saved to " ++ path ++ "\n")

/-- Prints histories and writes files. -/
def conclude (o : Options) (engine : Engine) (outcomes : List Outcome) : Program Unit := do
  if o.history then say (String.join (outcomes.map Outcome.historyText))
  if let some path := given o.dot then exportGraph outcomes path
  if let some path := given o.save then saveTo path engine

/-- The whole program, with what is typed at the prompt. -/
def whole (arguments : List String) (typed : String) (ending : Prompt.Ending) : Program Unit := do
  let o ← options arguments
  let (engine, work) ← prepare o
  let (engine, outcomes) ← perform o typed ending engine work
  conclude o engine outcomes

/-- What is left of the program at its end: the exit code, what it printed, the files, and the fault that
ended it, if one did. -/
structure Result where
  code : Nat
  console : Console
  fault : Option Fault

def run (arguments : List String) (directory : Directory) (typed : String) (ending : Prompt.Ending) :
    Result :=
  match EStateM.run (whole arguments typed ending) { directory } with
  | .ok () console => ⟨0, console, none⟩
  | .error (.exit code) console => ⟨code, console, none⟩
  | .error (.fault fault) console => ⟨1, console, some fault⟩

end Program

end Clausal
