import Clausal.ClauseTable
import Clausal.Outcome.Basic
import Clausal.Resolution

/-!
# The engine

The engine holds the knowledge base, the goal and what a run works with: the set of support, the working
set and the derivation. The knowledge base persists; a run leaves behind only its derivation.
-/

namespace Clausal

/-- The state of the prover. `counter` is the next clause number, `earlier` holds the derivations before
the present one, each at its number. -/
structure Engine where
  counter : Int := 1
  knowledge : ClauseTable := .empty
  goal : Option Clause := none
  support : ClauseTable := .empty
  working : ClauseTable := .empty
  derivation : Derivation := {}
  earlier : Array Derivation := #[]

namespace Engine

/-! ## The knowledge base -/

/-- Adds a clause to the knowledge base, unless it is a tautology or subsumed there. -/
def learn (e : Engine) (c : Clause) : Engine :=
  if c.isTautology then e
  else match e.knowledge.absorb c with
    | none => e
    | some (_, knowledge) => { e with knowledge }

/-- Reads a clause and adds it to the knowledge base. A number is used up also by a text that is no
clause. -/
def add (e : Engine) (text : String) : Except ParseError Unit × Engine :=
  let e' := { e with counter := e.counter + 1 }
  match Clause.parse e.counter text with
  | .error error => (.error error, e')
  | .ok c => (.ok (), e'.learn c)

/-- Adds clauses one by one, up to the first text that is no clause. -/
def addAll (e : Engine) : List String → Except ParseError Unit × Engine
  | [] => (.ok (), e)
  | text :: rest =>
    match e.add text with
    | (.error error, e') => (.error error, e')
    | (.ok (), e') => e'.addAll rest

/-- Takes the clause with the literals of the text out of the knowledge base. -/
def remove (e : Engine) (text : String) : Except ParseError Engine :=
  (fun c => { e with knowledge := e.knowledge.erase c.literals }) <$> Clause.parse 0 text

/-- An engine that knows the given clauses. -/
def ofTexts (texts : List String) : Except ParseError Engine :=
  match ({} : Engine).addAll texts with
  | (.ok (), e) => .ok e
  | (.error error, _) => .error error

/-! ## The goal -/

/-- The negation of a goal: for each of its literals the unit clause of the complement. Numbers are
given from `next` on. -/
def negationUnits (next : Int) : List Literal → List Clause
  | [] => []
  | l :: rest =>
    { literals := .singleton l.complement, id := next } :: negationUnits (next + 1) rest

/-- Sets the goal, and its negation as the set of support. -/
def aim (e : Engine) (goal : Clause) : Engine :=
  { e with
    goal := some goal
    support := .ofList (negationUnits e.counter goal.literals.toList)
    counter := e.counter + goal.literals.toList.length }

def setGoal (e : Engine) (text : String) : Except ParseError Engine := e.aim <$> Clause.parse 0 text

/-! ## Derivations -/

def derivationAt (e : Engine) (number : Nat) : Derivation :=
  if number = e.derivation.number then e.derivation else e.earlier.getD number {}

/-- Shows a clause as it is now in all of the places. -/
def refresh (e : Engine) (places : List Place) (c : Clause) : Engine :=
  { e with
    derivation := e.derivation.refresh places c
    earlier := places.foldl
      (fun earlier place => earlier.modify place.derivation (·.refresh [place] c)) e.earlier }

/-- Registers a clause in the present derivation, and answers with the clause as it is then. -/
def register (e : Engine) (c : Clause) : Clause × Engine :=
  let c' := e.derivation.placed c
  let e' := e.refresh c.places c'
  (c', { e' with derivation := e.derivation.register c })

def registerAll (e : Engine) : List Clause → List Clause × Engine
  | [] => ([], e)
  | c :: rest =>
    let (c, e) := e.register c
    let (rest, e) := e.registerAll rest
    (c :: rest, e)

/-- Makes and registers the resolvents of two registered clauses. -/
def link (e : Engine) (c d : Clause) : List Clause × Engine :=
  let leftovers := c.literals.leftovers d.literals
  { e with counter := e.counter + leftovers.length }.registerAll
    (Clause.number [c.index, d.index] e.counter leftovers)

/-! ## What is seen of an engine -/

/-- What is seen of an engine between two steps. -/
structure View where
  counter : Int
  knowledge : List Clause
  goal : Option Clause
  support : List Clause
  working : List Clause
  size : Nat

def view (e : Engine) : View :=
  ⟨e.counter, e.knowledge.toList, e.goal, e.support.toList, e.working.toList, e.derivation.size⟩

end Engine

end Clausal
