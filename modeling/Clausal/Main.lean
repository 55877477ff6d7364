import Clausal.CommandLine.Program

/-!
# The executable

Reads the files that the options name, runs the program, and writes what it leaves.
-/

namespace Clausal.Executable

/-- The files at the paths, as far as they can be read. Files can be written wherever the options say
so. -/
def gather (o : Options) : IO Directory := do
  let mut files := []
  let mut folders := []
  for path in [o.load, o.clauses, o.commands].filterMap Program.given do
    try
      let text ← IO.FS.readFile path
      files := files ++ [((Path.ofText path).location, text)]
      folders := folders ++ (Path.ofText path).folders
    catch _ => pure ()
  for path in [o.dot, o.save].filterMap Program.given do
    folders := folders ++ (Path.ofText path).folders
  return { files, folders }

/-- The program at a terminal, with the exit code of an early end. -/
abbrev Shell := ExceptT UInt32 (StateT Console IO)

def flush : Shell Unit := do
  let c ← get
  IO.print c.out
  IO.eprint c.err
  (← IO.getStdout).flush
  set { c with out := "", err := "" }

/-- Runs a part of the program. -/
def stage {α : Type} (part : Program α) : Shell α := do
  match EStateM.run part (← get) with
  | .ok a c =>
    set c
    flush
    return a
  | .error halt c =>
    set c
    flush
    match halt with
    | .exit code => throw code.toUInt32
    | .fault fault =>
      IO.eprintln fault.message
      throw 1

def nextLine : Shell (Option (List Char)) := do
  IO.print Prompt.mark
  (← IO.getStdout).flush
  let line ← (← IO.getStdin).getLine
  return if line.isEmpty then none else some line.toList

/-- More lines than anyone types. -/
def patience : Nat := 1000000000000

/-- Does the work that the options ask for, with the prompt if it is wanted. -/
def work (o : Options) (engine : Engine) : Program.Work → Shell (Engine × List Outcome)
  | .converse => do
    IO.print Prompt.greeting
    let obey (a : Assistant) (text : String) : Shell Assistant := stage (Program.obey o a text)
    let a ← Prompt.converse (fun _ => true) nextLine obey patience (Program.assistant o engine)
    return (a.engine, a.outcomes)
  | other => stage (Program.perform o "" .closed engine other)

def whole (arguments : List String) : Shell Unit := do
  let o ← stage (Program.options arguments)
  let (engine, task) ← stage (Program.prepare o)
  let (engine, outcomes) ← work o engine task
  stage (Program.conclude o engine outcomes)

/-- Runs the program and writes the files that it leaves. Answers with the exit code. -/
def run (arguments : List String) : IO UInt32 := do
  let directory ← match Options.read arguments with
    | .ok o => gather o
    | .error _ => pure {}
  let (result, c) ← (whole arguments).run.run { directory }
  for (path, text) in c.directory.newFiles directory do
    IO.FS.writeFile path text
  return match result with
    | .ok () => 0
    | .error code => code

end Clausal.Executable

def main (arguments : List String) : IO UInt32 := Clausal.Executable.run arguments
