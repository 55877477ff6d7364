import Clausal.Derivation

/-!
# Outcomes

What a run leaves: the verdict on its goal, the derivation it made and the history of its rounds.
-/

namespace Clausal

/-- Why a run stopped without a proof. -/
inductive Reason where
  /-- A round brought nothing new. -/
  | fixpoint
  /-- No more rounds were allowed. -/
  | roundLimit
  /-- A reason given from outside. -/
  | stated (text : String)
deriving DecidableEq

def Reason.text : Reason → String
  | fixpoint => "fixpoint reached"
  | roundLimit => "round limit reached"
  | stated text => text

/-- What a run found. -/
inductive Verdict where
  /-- The empty clause, at a position of the derivation. -/
  | proven (empty : Int)
  /-- No proof, for a reason. -/
  | unknown (reason : Reason)
  /-- Neither: the run is not over, or nothing is known about it. -/
  | undecided
deriving DecidableEq

/-- What happened in one round: the sizes of the support and of the working set, and the names of the
clauses that were produced and removed. -/
structure RoundEntry where
  round : Int
  support : Int
  working : Int
  produced : List String
  removed : List String
deriving DecidableEq

/-- The result of a run. -/
structure Outcome where
  goal : Option Clause
  derivation : Derivation
  history : List RoundEntry
  verdict : Verdict

namespace Outcome

def proven (o : Outcome) : Bool :=
  match o.verdict with
  | .proven _ => true
  | _ => false

def rounds (o : Outcome) : Nat := o.history.length

/-- The last line about a run. -/
def conclusion (o : Outcome) : String :=
  "[CONCLUSION]: " ++ (match o.goal with
    | some goal => goal.name
    | none => "None") ++ " is " ++ (if o.proven then "true" else "unknown")

end Outcome

end Clausal
