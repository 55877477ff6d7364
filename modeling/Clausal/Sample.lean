import Clausal.Engine.Basic

/-!
# Samples

Small problems that come with the prover.
-/

namespace Clausal

/-- What is done with the knowledge base of a sample. -/
inductive Task where
  | prove (goal : String)
  | carryOut (commands : List String)

/-- A problem with a name. -/
structure Sample where
  name : String
  description : String
  knowledge : List String
  task : Task

namespace Sample

/-- All samples, in the order in which they are offered. -/
def all : List Sample :=
  [ { name := "syllogism"
      description := "Socrates syllogism: prove mortal by refutation"
      knowledge := ["human", "~human v mortal"]
      task := .prove "mortal" },
    { name := "chain"
      description := "Multi-step resolution: prove a chain of implications"
      knowledge := ["knows", "~knows v trusts", "~trusts v cooperates", "~cooperates v builds"]
      task := .prove "builds" },
    { name := "birds"
      description := "Non-derivable goal: the support set reaches a fixpoint"
      knowledge :=
        ["penguin", "~penguin v bird", "~bird v penguin v flies", "~penguin v ~flies"]
      task := .prove "flies" },
    { name := "cooking"
      description := "Cooking assistant: add, remove and query recipe facts"
      knowledge := []
      task := .carryOut
        ["~tomato v ~basil v caprese+", "tomato+", "basil+", "caprese?", "basil-", "caprese?",
          "~caprese v mozzarella?"] } ]

def find (name : String) : Except Fault Sample :=
  match all.find? (·.name = name) with
  | some sample => .ok sample
  | none => .error (.unknownSample name)

def engine (s : Sample) : Engine := (({} : Engine).addAll s.knowledge).2

def goal? (s : Sample) : Option String :=
  match s.task with
  | .prove goal => some goal
  | .carryOut _ => none

def commands? (s : Sample) : Option (List String) :=
  match s.task with
  | .prove _ => none
  | .carryOut commands => some commands

end Sample

end Clausal
