import Clausal.Derivation
import Clausal.Resolution

/-!
# Workbench

A derivation built by hand: clauses are made, registered and linked to parents one step at a time. A
clause stays the same one when it is registered or linked, wherever it is shown.
-/

namespace Clausal

/-- The clauses made so far, and a derivation of some of them. -/
structure Workbench where
  made : List Clause := []
  derivation : Derivation := {}

namespace Workbench

/-- A step of the work. Clauses are named by their position among the clauses made. -/
inductive Step where
  | make (clause : Except ParseError Clause)
  | add (c : Int)
  | link (c p q : Int)
  | parentsOf (c : Int)
  | get (i : Int)
  | look (c : Int)
  | all

/-- What a step shows. -/
inductive Shown where
  | clause (c : Clause)
  | clauses (cs : List Clause)
  | everything (cs : List Clause)

/-- The workbench after a change of the clause at a position. -/
def change (w : Workbench) (i : Int) (c : Clause) : Workbench :=
  match position? w.made.length i with
  | some i => { w with made := w.made.set i c }
  | none => w

def add (w : Workbench) (i : Int) : Except Fault (Clause × Workbench) := do
  let c ← element w.made i
  let placed := w.derivation.placed c
  return (placed, { w.change i placed with derivation := w.derivation.register c })

def link (w : Workbench) (i p q : Int) : Except Fault (Clause × Workbench) := do
  let c ← element w.made i
  let linked ← c.withParents (← element w.made p) (← element w.made q)
  return (linked,
    { w.change i linked with derivation := w.derivation.refresh linked.places linked })

def perform (w : Workbench) : Step → Except Fault (Shown × Workbench)
  | .make (.ok c) => .ok (.clause c, { w with made := w.made ++ [c] })
  | .make (.error error) => .error (.unreadable error)
  | .add c => (fun (c, w) => (.clause c, w)) <$> w.add c
  | .link c p q => (fun (c, w) => (.clause c, w)) <$> w.link c p q
  | .parentsOf c => do
    let parents ← w.derivation.parentsOf (← element w.made c)
    return (.clauses parents, w)
  | .get i => do return (.clause (← w.derivation.get i), w)
  | .look c => do return (.clause (← element w.made c), w)
  | .all => .ok (.everything w.derivation.toList, w)

/-- What each step shows; a step that fails changes nothing. -/
def performAll (w : Workbench) : List Step → List (Except Fault Shown)
  | [] => []
  | step :: rest =>
    match w.perform step with
    | .ok (shown, w) => .ok shown :: w.performAll rest
    | .error fault => .error fault :: w.performAll rest

end Workbench

end Clausal
