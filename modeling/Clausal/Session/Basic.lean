import Clausal.Engine.Resolve
import Clausal.Engine.Report
import Clausal.Engine.Saved
import Clausal.Outcome.Report

/-!
# Sessions

A session is a sequence of steps on an engine. A run can carry hooks: steps that are taken on the same
engine after one of its rounds. Every step is answered, and a step that fails changes nothing but what it
had changed before.
-/

namespace Clausal

/-- How a run is asked for. -/
structure RunOptions where
  limit : Option Int := none
  /-- Tell what the run prints. -/
  verbose : Bool := false
  /-- Tell what is seen of the engine after each round. -/
  snapshots : Bool := false
  /-- Tell the answers of the hooks. -/
  answers : Bool := false
  /-- Give the run up after this round. -/
  abort : Option Int := none

mutual

/-- A step of a session. -/
inductive Step where
  | add (text : String)
  | remove (text : String)
  | goal (text : String)
  | run (options : RunOptions) (hooks : List Hook)
  | resolve (a : Operand) (b : Option Operand)
  | parentsOf (i : Int)
  | derivation
  | saved
  | restore (saved : Saved)
  | save
  | reload
  | load (text : String)
  | state
  | describe (n : Int)
  | proof (n : Int)
  | history (n : Int)
  | graph (n : Int)

/-- Steps taken after a round of a run. -/
inductive Hook where
  | mk (round : Int) (steps : List Step)

end

mutual

/-- What a step answers. -/
inductive Value where
  | nothing
  | clauses (clauses : List Clause)
  | saved (clauses : List String) (counter : Int)
  | text (text : String)
  | graph (text : String)
  | outcome (outcome : Outcome)
  | run (outcome : Except Fault Outcome) (printed : Option String)
      (snapshots : Option (List Engine.View)) (answers : Option (List Answer))

/-- The answer to a step: a value or a fault, and what is seen of the engine afterwards. -/
inductive Answer where
  | mk (value : Except Fault Value) (view : Engine.View)

end

/-- The engines that a session has used, the number of the present one, and the runs it has made, each
with the number of its engine. -/
structure Session where
  engines : Array Engine := #[{}]
  current : Nat := 0
  runs : List (Nat × Run) := []

namespace Session

def engineAt (s : Session) (number : Nat) : Engine := s.engines.getD number {}

def engine (s : Session) : Engine := s.engineAt s.current

def setEngine (s : Session) (number : Nat) (e : Engine) : Session :=
  { s with engines := s.engines.setIfInBounds number e }

def update (s : Session) (e : Engine) : Session := s.setEngine s.current e

/-- The session with another engine in place of the present one. -/
def replace (s : Session) (e : Engine) : Session :=
  { s with engines := s.engines.push e, current := s.engines.size }

def outcome (s : Session) (n : Int) : Except Fault Outcome :=
  (fun run => (s.engineAt run.1).outcome run.2) <$> element s.runs n

/-! ## Runs with hooks -/

/-- Steps to be taken on a session. -/
abbrev Action := Session → List Answer × Session

def act : List Action → Session → List Answer × Session
  | [], s => ([], s)
  | action :: rest, s =>
    let (answers, s) := action s
    let (more, s) := act rest s
    (answers ++ more, s)

/-- The rounds after which something is to be done, in order and each once. -/
def agenda (hooks : List (Int × Action)) (abort : Option Int) : List Int :=
  (sorted (fun m n => decide (m ≤ n)) ((hooks.map (·.1) ++ abort.toList).filter (0 < ·))).eraseDups

/-- How a run with hooks came to its end. -/
inductive RunEnd where
  | decided (verdict : Verdict)
  | aborted (round : Int)

/-- What a run with hooks has done so far. -/
structure Progress where
  session : Session
  laps : List Engine.Lap := []
  answers : List Answer := []

/-- Goes through the rounds of a run on the engine with a number, and through the rounds of the agenda
with what is to be done after them. -/
def interleave (number : Nat) (limit abort : Option Int) (hooks : List (Int × Action)) :
    List Int → Progress → RunEnd × Progress
  | [], p =>
    let (stop, e, laps) := (p.session.engineAt number).proceed limit none p.laps
    let verdict := match stop with
      | .decided verdict => verdict
      | .paused _ => .undecided
    (.decided verdict, { p with session := p.session.setEngine number e, laps })
  | round :: rounds, p =>
    let (stop, e, laps) := (p.session.engineAt number).proceed limit (some round) p.laps
    let p := { p with session := p.session.setEngine number e, laps }
    match stop with
    | .decided verdict => (.decided verdict, p)
    | .paused stalled =>
      let actions := (hooks.filter (·.1 = round)).map (·.2)
      let (answers, session) := act actions p.session
      let p := { p with session, answers := p.answers ++ answers }
      if abort = some round then (.aborted round, p)
      else if stalled then (.decided (.unknown .fixpoint), p)
      else interleave number limit abort hooks rounds p

/-- The answer to a run, with what its options ask for. -/
def runValue (options : RunOptions) (outcome : Except Fault Outcome) (printed : String)
    (p : Progress) : Value :=
  let completed := p.laps.filter fun lap =>
    match lap.report.ending with
    | .refuted _ => false
    | _ => true
  .run outcome (if options.verbose then some printed else none)
    (if options.snapshots then some (completed.map (·.after)) else none)
    (if options.answers then some p.answers else none)

def finish (number : Nat) (options : RunOptions) (goal : Clause) (verdict : Verdict) (p : Progress) :
    Value × Session :=
  let e := p.session.engineAt number
  let run : Run := ⟨goal, e.derivation.number, p.laps, verdict⟩
  let e := e.reset
  let s := p.session.setEngine number e
  (runValue options (.ok (e.outcome run)) (e.runText run) p,
    { s with runs := s.runs ++ [(number, run)] })

def run (options : RunOptions) (hooks : List (Int × Action)) (s : Session) : Value × Session :=
  match s.engine.goal with
  | none => (runValue options (.error .noGoal) "" { session := s }, s)
  | some goal =>
    let number := s.current
    let (copies, e) := s.engine.start
    match Engine.findConflict [] copies with
    | some (c, d) =>
      let (empty, e) := e.registerConflict c d
      finish number options goal (.proven empty.index) { session := s.setEngine number e }
    | none =>
      let (ending, p) := interleave number options.limit options.abort hooks
        (agenda hooks options.abort) { session := s.setEngine number e }
      match ending with
      | .decided verdict => finish number options goal verdict p
      | .aborted round =>
        let s := p.session.setEngine number (p.session.engineAt number).reset
        (runValue options (.error (.aborted round)) (Engine.told p.laps) p, s)

end Session

end Clausal
