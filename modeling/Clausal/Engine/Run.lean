import Clausal.Engine.Round

/-!
# Runs

A run refutes the negated goal against the knowledge base, round by round. It ends with the empty
clause, with a round that brings nothing new, or at a limit. Afterwards the knowledge base is numbered
from 1 again, and goal, support and working set are gone.
-/

namespace Clausal

namespace Engine

/-! ## The beginning -/

/-- Puts a clause of the support into the working set, in place of the copies of knowledge base clauses
that it strictly subsumes. -/
def seed (copies : List Clause) (working : ClauseTable) (s : Clause) : ClauseTable :=
  let weaker := copies.filter fun c => s.subsumes c && c.literals != s.literals
  (weaker.foldl (fun t c => t.erase c.literals) working).put s

/-- Begins a run: a new derivation with copies of the knowledge base and with the support, which
together are the working set. Answers with the copies. -/
def start (e : Engine) : List Clause × Engine :=
  let e :=
    { e with
      earlier := e.earlier.push e.derivation
      derivation := { number := e.derivation.number + 1 } }
  let (copies, e) :=
    e.registerAll (e.knowledge.toList.map fun c => { c with parents := [], places := [] })
  let (units, e) := e.registerAll e.support.toList
  (copies, { e with support := .ofList units, working := units.foldl (seed copies) (.ofList copies) })

/-- The first two complementary unit clauses of a list, of which `units` came before. -/
def findConflict (units : List Clause) : List Clause → Option (Clause × Clause)
  | [] => none
  | c :: rest =>
    match c.literals.toList with
    | [l] =>
      match units.find? fun d => d.literals == .singleton l.complement with
      | some d => some (d, c)
      | none => findConflict (c :: units) rest
    | _ => findConflict units rest

/-- Registers the empty clause as the resolvent of two complementary unit clauses. -/
def registerConflict (e : Engine) (c d : Clause) : Clause × Engine :=
  { e with counter := e.counter + 1 }.register
    { literals := .empty, id := e.counter, parents := [c.index, d.index] }

/-! ## The rounds -/

/-- The atoms of a list of clauses, each once. -/
def atoms (cs : List Clause) : List String :=
  (cs.flatMap fun c => c.literals.toList.map Literal.atom).eraseDups

/-- More rounds than this a search cannot take: every productive round subsumes a clause over the atoms
of working set and support that was not subsumed before, and there are three ways for an atom to occur
in a clause that is no tautology. -/
def roundBound (e : Engine) : Nat :=
  Nat.pow 3 (atoms (e.working.toList ++ e.support.toList)).length + 1

/-- A round that is over, and what was seen of the engine after it. -/
structure Lap where
  report : RoundReport
  after : View

/-- Where a search stands. -/
inductive Stop where
  /-- The search is over. -/
  | decided (verdict : Verdict)
  /-- The search halts after a round, the last one if it brought nothing new. -/
  | paused (stalled : Bool)

def atLimit (limit : Option Int) (rounds : Nat) : Bool :=
  match limit with
  | some limit => decide (limit ≤ rounds)
  | none => false

/-- Goes on with a search after the rounds `past`. It halts after the round whose number is `pause`. If it
is not over after `fuel` rounds, it stays undecided. -/
def search (limit pause : Option Int) :
    Nat → Engine → List Lap → Stop × Engine × List Lap
  | 0, e, past => (.decided .undecided, e, past)
  | fuel + 1, e, past =>
    if atLimit limit past.length then (.decided (.unknown .roundLimit), e, past)
    else
      let (report, e) := e.round (past.length + 1)
      let past := past ++ [⟨report, e.view⟩]
      match report.ending with
      | .refuted empty => (.decided (.proven empty), e, past)
      | .stalled =>
        if pause = some (past.length : Int) then (.paused true, e, past)
        else (.decided (.unknown .fixpoint), e, past)
      | .productive =>
        if pause = some (past.length : Int) then (.paused false, e, past)
        else search limit pause fuel e past

/-- Goes on with a search to the round `pause`, or to its end, which is within the bound. -/
def proceed (e : Engine) (limit pause : Option Int) (past : List Lap) :
    Stop × Engine × List Lap :=
  search limit pause e.roundBound e past

/-! ## The end -/

/-- Gives clauses the numbers from `next` on. -/
def renumbered (next : Int) : List Clause → List Clause
  | [] => []
  | c :: rest => { c with id := next } :: renumbered (next + 1) rest

/-- Ends a run: nothing is left of it but its derivation. -/
def reset (e : Engine) : Engine :=
  let knowledge := renumbered 1 e.knowledge.toList
  let e := knowledge.foldl (fun e c => e.refresh c.places c) e
  { e with
    counter := 1 + knowledge.length
    knowledge := .ofList knowledge
    goal := none
    support := .empty
    working := .empty }

end Engine

/-! ## Whole runs -/

/-- The record of a run. Its derivation is named by number. -/
structure Run where
  goal : Clause
  derivation : Nat
  laps : List Engine.Lap
  verdict : Verdict

namespace Run

def history (r : Run) : List RoundEntry := r.laps.map (·.report.entry)

end Run

namespace Engine

/-- The outcome of a run, with its derivation as it is now. -/
def outcome (e : Engine) (r : Run) : Outcome :=
  ⟨some r.goal, e.derivationAt r.derivation, r.history, r.verdict⟩

/-- Runs for a goal whose negation is the support. -/
def pursue (e : Engine) (goal : Clause) (limit : Option Int) : Run × Engine :=
  let (copies, e) := e.start
  match findConflict [] copies with
  | some (c, d) =>
    let (empty, e) := e.registerConflict c d
    (⟨goal, e.derivation.number, [], .proven empty.index⟩, e.reset)
  | none =>
    let (stop, e, laps) := e.proceed limit none []
    let verdict := match stop with
      | .decided verdict => verdict
      | .paused _ => .undecided
    (⟨goal, e.derivation.number, laps, verdict⟩, e.reset)

/-- Runs for the goal that has been set. -/
def run (e : Engine) (limit : Option Int) : Except Fault (Run × Engine) :=
  match e.goal with
  | none => .error .noGoal
  | some goal => .ok (e.pursue goal limit)

end Engine

end Clausal
