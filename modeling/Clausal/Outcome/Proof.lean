import Clausal.Outcome.Basic

/-!
# Proofs

The proof of an outcome is the empty clause and everything it was derived from, in the order of the
clause numbers. The trace numbers its clauses from 1 and shows which were asserted and which derived.
-/

namespace Clausal

variable {α : Type}

/-- Puts an element in front of the first one that it may stand before. -/
def insertBefore (le : α → α → Bool) (a : α) : List α → List α
  | [] => [a]
  | b :: bs => if le a b then a :: b :: bs else b :: insertBefore le a bs

/-- The elements of a list in order; those of equal rank stay as they were. -/
def sorted (le : α → α → Bool) (as : List α) : List α := as.foldr (insertBefore le) []

namespace Derivation

/-- Goes through a queue of names. One that was not seen before is looked up, and its parents are put at the end of the
queue. A name outside the derivation is a fault. At most `fuel` names are taken from the queue. -/
def visit (d : Derivation) : Nat → List Int → List Int → Except Fault (List Int)
  | 0, seen, _ => .ok seen
  | _ + 1, seen, [] => .ok seen
  | fuel + 1, seen, i :: queue =>
    if seen.contains i then d.visit fuel seen queue
    else do
      let c ← d.get i
      d.visit fuel (seen ++ [i]) (queue ++ c.parents)

/-- More names than this do not come into a queue that begins with one: a clause has two names, and its parents come in
once for each of them. -/
def queueBound (d : Derivation) : Nat := 2 * (d.toList.flatMap Clause.parents).length + 1

/-- The names reached from one of them, each once. -/
def reachable (d : Derivation) (i : Int) : Except Fault (List Int) := d.visit d.queueBound [] [i]

end Derivation

/-- The line of a clause in a listing, with the numbers of the first two parents if there are any. -/
def Clause.lineFrom (c : Clause) (parents : List Int) : Except Fault String :=
  match parents with
  | [] => .ok c.line
  | [_] => .error .loneParent
  | p :: q :: _ => .ok (c.line ++ " (" ++ toString p ++ ", " ++ toString q ++ ")")

namespace Outcome

/-- The clauses of the proof, in the order of their numbers; none if the goal was not proven. -/
def proof (o : Outcome) : Except Fault (List Clause) :=
  match o.verdict with
  | .proven empty => do
    let names ← o.derivation.reachable empty
    let steps ← names.mapM o.derivation.get
    return sorted (fun c d => decide (c.id ≤ d.id)) steps
  | _ => .ok []

def emptyClause (o : Outcome) : Except Fault Clause :=
  match o.verdict with
  | .proven empty => o.derivation.get empty
  | _ => .error .outOfRange

/-! ## The trace -/

/-- The line between asserted and derived clauses. -/
def rule : String := "==============="

/-- The number of the last step registered at a position, counted from 1. -/
def stepNumber (steps : List Clause) (index : Int) : Except Fault Nat :=
  match steps.zipIdx.reverse.find? (·.1.index = index) with
  | some (_, i) => .ok (i + 1)
  | none => .error (.unnumbered index)

def stepLine (steps : List Clause) (c : Clause) : Except Fault String := do
  let parents ← c.parents.mapM (stepNumber steps)
  let number ← stepNumber steps c.index
  Clause.lineFrom { literals := c.literals, id := number } (parents.map Int.ofNat)

/-- The lines of steps, with a rule in front of the first derived one. -/
def stepLines (steps : List Clause) : List Clause → Except Fault (List String)
  | [] => .ok []
  | c :: rest => do
    if c.hasParents then
      let lines ← (c :: rest).mapM (stepLine steps)
      return rule :: lines
    else
      let line ← stepLine steps c
      let lines ← stepLines steps rest
      return line :: lines

/-- The proof, step by step, and the conclusion. -/
def trace (o : Outcome) : Except Fault (List String) := do
  let steps ← o.proof
  if steps.isEmpty then return [o.conclusion]
  let lines ← stepLines steps steps
  return lines ++ [rule, o.conclusion]

end Outcome

end Clausal
