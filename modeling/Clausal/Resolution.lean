import Clausal.Fault

/-!
# Resolution

Two clauses clash on a literal of the first whose complement is in the second. What is left of the two
without the clashing pair is their resolvent, unless it is a tautology.
-/

namespace Clausal

namespace LiteralSet

/-- The literals of the first set whose complements are in the second, in order. -/
def clashes (s t : LiteralSet) : List Literal := s.toList.filter t.containsComplement

/-- What is left of two sets that clash on a literal. -/
def resolvent (s t : LiteralSet) (l : Literal) : LiteralSet :=
  (s.erase l).union (t.erase l.complement)

/-- What each clash of two sets leaves, tautologies included. -/
def leftovers (s t : LiteralSet) : List LiteralSet := (s.clashes t).map (s.resolvent t)

theorem mem_clashes {s t : LiteralSet} {l : Literal} :
    l ∈ s.clashes t ↔ l ∈ s ∧ l.complement ∈ t := by
  simp [clashes, containsComplement, mem_toList]

@[simp] theorem mem_resolvent {s t : LiteralSet} {l m : Literal} :
    m ∈ s.resolvent t l ↔ (m ∈ s ∧ m ≠ l) ∨ (m ∈ t ∧ m ≠ l.complement) := by
  simp [resolvent]

end LiteralSet

namespace Clause

/-- The resolvents among the leftovers: numbers are given from `next` on, and a tautology uses up its
number and is dropped. -/
def number (parents : List Int) : Int → List LiteralSet → List Clause
  | _, [] => []
  | next, literals :: rest =>
    if literals.isTautology then number parents (next + 1) rest
    else { literals, id := next, parents } :: number parents (next + 1) rest

/-- The clause with two others as its parents, which have to be registered. -/
def withParents (c p q : Clause) : Except Fault Clause :=
  match p.index?, q.index? with
  | some i, some j => .ok { c with parents := [(i : Int), (j : Int)] }
  | _, _ => .error .unregistered

/-- The resolvents of two clauses, with numbers from `next` on, and the first number not used. A clause
that is not registered has no resolvents: the first one that would be made is a fault. -/
def resolve (c d : Clause) (next : Int) : Except Fault (List Clause) × Int :=
  let leftovers := c.literals.leftovers d.literals
  match c.index?, d.index? with
  | some i, some j => (.ok (number [(i : Int), (j : Int)] next leftovers), next + leftovers.length)
  | _, _ =>
    match leftovers.findIdx? (!·.isTautology) with
    | none => (.ok [], next + leftovers.length)
    | some i => (.error .unregistered, next + i + 1)

end Clause

end Clausal
