import Clausal.LiteralSet

/-!
# Clauses

A clause is a disjunction of literals together with its number, the positions of its parents and the
places where it has been registered. Two clauses say the same if their literals are the same.
-/

namespace Clausal

/-- A place in a derivation: which derivation, and where in it. -/
structure Place where
  derivation : Nat
  position : Nat
deriving DecidableEq

/-- A disjunction of literals. The number `id` is for display. The parents are positions in a
derivation: none for a clause that was asserted. The places are those where the clause has been
registered, the latest first. -/
structure Clause where
  literals : LiteralSet
  id : Int := 0
  parents : List Int := []
  places : List Place := []
deriving DecidableEq

namespace Clause

/-- The position where the clause was registered last. -/
def index? (c : Clause) : Option Nat := c.places.head?.map Place.position

/-- The position where the clause was registered last, and -1 for a clause in no derivation. -/
def index (c : Clause) : Int :=
  match c.index? with
  | some position => position
  | none => -1

def name (c : Clause) : String := c.literals.name

def isEmpty (c : Clause) : Bool := c.literals.isEmpty

/-- Does every assignment satisfy the clause? -/
def isTautology (c : Clause) : Bool := c.literals.isTautology

def hasParents (c : Clause) : Bool := !c.parents.isEmpty

/-- The first clause is at least as general as the second. -/
def subsumes (c d : Clause) : Bool := c.literals.subset d.literals

theorem subsumes_iff {c d : Clause} : c.subsumes d = true ↔ c.literals ⊆ d.literals :=
  LiteralSet.subset_iff

/-- The line of a clause in a listing. -/
def line (c : Clause) : String := toString c.id ++ ". " ++ c.name

/-- The clause as shown to a developer. -/
def tag (c : Clause) : String := "Clause(" ++ toString c.id ++ ": " ++ c.name ++ ")"

/-! ## Redundancy -/

/-- Which of a clause and the members of a collection is redundant: the clause, or the member at a
position. -/
inductive Redundant where
  | itself
  | member (position : Nat)
deriving DecidableEq

/-- The same member after one more has been put in front. -/
def Redundant.shift : Redundant → Redundant
  | itself => itself
  | member position => member (position + 1)

/-- The more specific of a clause and the first member related to it by subsumption. Of two equal ones
it is the clause. Where `none` stands among the members, the clause itself is there and is passed
over. -/
def redundantAgainst (c : Clause) : List (Option Clause) → Option Redundant
  | [] => none
  | none :: rest => (c.redundantAgainst rest).map Redundant.shift
  | some d :: rest =>
    if d.subsumes c then some .itself
    else if c.subsumes d then some (.member 0)
    else (c.redundantAgainst rest).map Redundant.shift

end Clause

end Clausal
