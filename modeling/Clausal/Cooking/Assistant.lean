import Clausal.Cooking.Command
import Clausal.Engine.Report

/-!
# The cooking assistant

The assistant carries out commands on one engine and prints what comes of each.
-/

namespace Clausal

/-- An assistant: its engine, the limit and the telling of its runs, and the runs it has made. -/
structure Assistant where
  engine : Engine
  limit : Option Int := none
  verbose : Bool := false
  runs : List Run := []

namespace Assistant

/-- What is printed of a clause that cannot be read. -/
def complaint (clause : String) (error : ParseError) : String :=
  "Invalid clause " ++ Text.quoted clause ++ ": " ++ error.message ++ "\n"

/-- The trace of an outcome as printed text; a trace that cannot be made is not printed. -/
def traceText (o : Outcome) : String :=
  match o.proofText with
  | .ok text => text
  | .error _ => ""

/-- Proves a clause and prints the proof. -/
def query (a : Assistant) (clause : String) : String × Assistant :=
  match Clause.parse 0 clause with
  | .error error => (complaint clause error, a)
  | .ok goal =>
    let (run, engine) := (a.engine.aim goal).pursue goal a.limit
    let told := if a.verbose then engine.runText run else ""
    (told ++ traceText (engine.outcome run), { a with engine, runs := a.runs ++ [run] })

def add (a : Assistant) (clause : String) : String × Assistant :=
  match a.engine.add clause with
  | (.ok (), engine) => ("Added " ++ clause ++ "\n", { a with engine })
  | (.error error, engine) => (complaint clause error, { a with engine })

def remove (a : Assistant) (clause : String) : String × Assistant :=
  match a.engine.remove clause with
  | .ok engine => ("Removed " ++ clause ++ "\n", { a with engine })
  | .error error => (complaint clause error, a)

/-- What is printed before a command is carried out. -/
def heading (line : String) : String := "User's command: " ++ line ++ "\n"

/-- Carries out a command. Answers with what is printed. -/
def execute (a : Assistant) (line : String) : String × Assistant :=
  let command := Command.parse line
  let (printed, a) := match command.action? with
    | none => ("Unknown command.\n", a)
    | some .query => a.query command.clause
    | some .add => a.add command.clause
    | some .remove => a.remove command.clause
  (heading line ++ printed ++ "\n", a)

/-- Does a command line ask for a proof? -/
def asks (line : String) : Bool :=
  let command := Command.parse line
  command.action? = some .query && (Clause.parse 0 command.clause).isOk

/-- Carries out a command line, unless it is blank. -/
def step (a : Assistant) (line : String) : String × Assistant :=
  let line := Text.trimmed line
  if line.isEmpty then ("", a) else a.execute line

def runAll (a : Assistant) : List String → String × Assistant
  | [] => ("", a)
  | line :: rest =>
    let (printed, a) := a.step line
    let (more, a) := a.runAll rest
    (printed ++ more, a)

def outcomes (a : Assistant) : List Outcome := a.runs.map a.engine.outcome

end Assistant

end Clausal
