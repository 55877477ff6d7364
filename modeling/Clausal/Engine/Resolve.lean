import Clausal.Engine.Basic

/-!
# Resolving by hand

Outside a run any two clauses can be resolved: clauses of the knowledge base or the support, registered
ones, and clauses made for the occasion. A clause in no derivation is registered first, and stays so.
-/

namespace Clausal

/-- A clause that is to be resolved. Positions count from the end if they are negative. -/
inductive Operand where
  /-- A clause of the knowledge base. -/
  | knowledge (i : Int)
  /-- A clause of the support. -/
  | support (i : Int)
  /-- A registered clause. -/
  | derivation (i : Int)
  /-- A clause made for the occasion, if its text is one. -/
  | made (clause : Except ParseError Clause)

namespace Engine

/-- Where an operand was found. -/
inductive Source where
  | knowledge (c : Clause)
  | support (c : Clause)
  | elsewhere (c : Clause)

def Source.clause : Source → Clause
  | knowledge c => c
  | support c => c
  | elsewhere c => c

def find (e : Engine) : Operand → Except Fault Source
  | .knowledge i => Source.knowledge <$> element e.knowledge.toList i
  | .support i => Source.support <$> element e.support.toList i
  | .derivation i => Source.elsewhere <$> e.derivation.get i
  | .made (.ok c) => .ok (.elsewhere c)
  | .made (.error error) => .error (.unreadable error)

/-- Registers the clause of a source, unless it is registered, and keeps it so where it was found. -/
def enlist (e : Engine) (source : Source) : Clause × Engine :=
  match source.clause.index? with
  | some _ => (source.clause, e)
  | none =>
    let (c, e) := e.register source.clause
    match source with
    | .knowledge _ => (c, { e with knowledge := e.knowledge.put c })
    | .support _ => (c, { e with support := e.support.put c })
    | .elsewhere _ => (c, e)

/-- The source as it is after the enlistment of another one: a clause that both name is registered. -/
def again (first : Source) (c : Clause) : Source → Source
  | .knowledge d =>
    match first with
    | .knowledge _ => if d.literals = c.literals then .knowledge c else .knowledge d
    | _ => .knowledge d
  | .support d =>
    match first with
    | .support _ => if d.literals = c.literals then .support c else .support d
    | _ => .support d
  | .elsewhere d => .elsewhere d

/-- Resolves two operands, or an operand with itself. Both are looked for first; then they are registered
in order, and their resolvents after them. -/
def resolve (e : Engine) (a : Operand) (b : Option Operand) : Except Fault (List Clause × Engine) := do
  let first ← e.find a
  match b with
  | none =>
    let (c, e) := e.enlist first
    return e.link c c
  | some b =>
    let second ← e.find b
    let (c, e) := e.enlist first
    let (d, e) := e.enlist (again first c second)
    return e.link c d

end Engine

end Clausal
