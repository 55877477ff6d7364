import Clausal.Engine.Basic

/-!
# Rounds

In a round every clause of the support is resolved with every clause of the working set. A resolvent is
a candidate unless a clause of the working set subsumes it; among candidates the more general one stays,
and the clauses of the working set that a candidate subsumes are doomed. The candidates are the next
support.
-/

namespace Clausal

/-- What can be told about a run while it goes on. -/
inductive Event where
  /-- Two unit clauses of the knowledge base are complementary. -/
  | conflict
  /-- A round begins. -/
  | begins (round support working : Nat)
  /-- Two clauses have the empty resolvent. -/
  | contradiction (left right : LiteralSet)
  /-- A resolvent is subsumed by the working set. -/
  | subsumed (literals : LiteralSet)
  /-- A clause of the working set is subsumed by a candidate. -/
  | backSubsumed (literals general : LiteralSet)
  /-- A candidate stays, with its parents. -/
  | kept (literals : LiteralSet) (parents : List LiteralSet)
  /-- How many clauses a round produced and removed. -/
  | ends (produced removed : Nat)

/-- The lines in which an event is told. -/
def Event.text : Event → String
  | conflict => "  [conflict] knowledge base contains complementary unit clauses\n"
  | begins round support working =>
    "\n--- Round " ++ toString round ++ ": sos=" ++ toString support ++ " clauses=" ++
      toString working ++ " ---\n"
  | contradiction left right => "  [empty] NIL (from " ++ left.name ++ " + " ++ right.name ++ ")\n"
  | subsumed literals => "  [subsumed] " ++ literals.name ++ "\n"
  | backSubsumed literals general =>
    "  [back-subsumed] " ++ literals.name ++ " by " ++ general.name ++ "\n"
  | kept literals parents =>
    "  [new] " ++ literals.name ++ " (from " ++ " + ".intercalate (parents.map LiteralSet.name) ++
      ")\n"
  | ends produced removed =>
    "  Produced: " ++ toString produced ++ " | Removed: " ++ toString removed ++ "\n"

/-- A round in progress: the engine, the candidates, the doomed clauses of the working set, and the
events so far. -/
structure Sweep where
  engine : Engine
  candidates : ClauseTable := .empty
  doomed : ClauseTable := .empty
  events : Array Event := #[]

/-- A round that found the empty clause, which stands at a position of the derivation. -/
structure Refutation where
  engine : Engine
  empty : Int
  events : Array Event

namespace Sweep

/-- Takes a resolvent in as a candidate, unless it is redundant. -/
def consider (w : Sweep) (r : Clause) : Sweep :=
  if w.engine.working.toList.any (·.subsumes r) then
    { w with events := w.events.push (.subsumed r.literals) }
  else match w.candidates.absorb r with
    | none => w
    | some (_, candidates) =>
      let hit := w.engine.working.toList.filter fun c =>
        r.subsumes c && !w.doomed.contains c.literals
      { w with
        candidates
        doomed := w.doomed.putAll hit
        events := w.events ++ hit.map fun c => Event.backSubsumed c.literals r.literals }

/-- Goes through the resolvents of `c` and `s`. -/
def sift (c s : Clause) (w : Sweep) : List Clause → Except Refutation Sweep
  | [] => .ok w
  | r :: rest =>
    if r.isEmpty then
      .error ⟨w.engine, r.index, w.events.push (.contradiction c.literals s.literals)⟩
    else (w.consider r).sift c s rest

/-- Resolves a clause of the working set with one of the support. -/
def meet (s : Clause) (w : Sweep) (c : Clause) : Except Refutation Sweep :=
  let (resolvents, engine) := w.engine.link c s
  { w with engine }.sift c s resolvents

/-- Registers a clause of the support that is in no derivation yet. -/
def enlist (w : Sweep) (s : Clause) : Clause × Sweep :=
  match s.index? with
  | some _ => (s, w)
  | none =>
    let (s', engine) := w.engine.register s
    (s', { w with engine := { engine with support := engine.support.put s' } })

/-- Resolves a clause of the support with every clause of the working set. -/
def pass (working : List Clause) (w : Sweep) (s : Clause) : Except Refutation Sweep :=
  if working.isEmpty then .ok w
  else
    let (s, w) := w.enlist s
    working.foldlM (meet s) w

/-- The sweep of a whole round, from the engine at its beginning. -/
def all (e : Engine) : Except Refutation Sweep :=
  e.support.toList.foldlM (pass e.working.toList) { engine := e }

end Sweep

inductive RoundEnd where
  /-- The empty clause was found at a position of the derivation. -/
  | refuted (empty : Int)
  /-- There are new clauses. -/
  | productive
  /-- There is nothing new. -/
  | stalled
deriving DecidableEq

/-- A round as it is told afterwards. -/
structure RoundReport where
  entry : RoundEntry
  events : Array Event
  ending : RoundEnd

namespace Engine

def entry (e : Engine) (round : Nat) (produced removed : List Clause) : RoundEntry :=
  { round := (round : Int)
    support := (e.support.size : Int)
    working := (e.working.size : Int)
    produced := produced.map Clause.name
    removed := removed.map Clause.name }

def parentLiterals (e : Engine) (c : Clause) : List LiteralSet :=
  (c.parents.filterMap e.derivation.get?).map Clause.literals

/-- A round: the `round`-th of the run. -/
def round (e : Engine) (round : Nat) : RoundReport × Engine :=
  let begins := Event.begins round e.support.size e.working.size
  match Sweep.all e with
  | .error found =>
    let nil : Clause := { literals := .empty }
    ({ entry := found.engine.entry round [nil] []
       events := #[begins] ++ found.events
       ending := .refuted found.empty }, found.engine)
  | .ok w =>
    let removed := w.doomed.toList
    let working := removed.foldl (fun t c => t.erase c.literals) w.engine.working
    let e := { w.engine with working }
    let produced := w.candidates.filter fun r => !working.contains r.literals
    let report : RoundReport :=
      { entry := e.entry round produced.toList removed
        events := #[begins] ++ w.events ++
          produced.toList.map (fun r => Event.kept r.literals (e.parentLiterals r)) ++
          #[Event.ends produced.size removed.length]
        ending := if produced.isEmpty then .stalled else .productive }
    if produced.isEmpty then (report, e)
    else (report, { e with support := produced, working := working.putAll produced.toList })

end Engine

end Clausal
