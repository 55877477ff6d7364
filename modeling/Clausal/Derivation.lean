import Clausal.Fault

/-!
# Derivations

A derivation is a growing list of clauses in which parents are named by position. A clause may be
registered in several places: all of them show the same clause, with the position it got last. Positions
are integers: from 0 they count from the beginning, from -1 downwards from the end.
-/

namespace Clausal

/-! ## Positions -/

/-- The position in a list of the given size that an integer names, if it names one. -/
def position? (size : Nat) (i : Int) : Option Nat :=
  if 0 ≤ i ∧ i < size then some i.toNat
  else if -size ≤ i ∧ i < 0 then some (size + i).toNat
  else none

/-- The fault of an integer that names no position: positions have 63 bits and a sign. -/
def strayPosition (i : Int) : Fault :=
  if -9223372036854775808 ≤ i ∧ i < 9223372036854775808 then .outOfRange else .unindexable

/-- The element at the position that an integer names. -/
def element {α : Type} (xs : List α) (i : Int) : Except Fault α :=
  match (position? xs.length i).bind (xs[·]?) with
  | some x => .ok x
  | none => .error (strayPosition i)

/-! ## Clauses by position -/

/-- The clauses registered so far. The number tells derivations apart. -/
structure Derivation where
  number : Nat := 0
  clauses : Array Clause := #[]

namespace Derivation

def size (d : Derivation) : Nat := d.clauses.size

def toList (d : Derivation) : List Clause := d.clauses.toList

/-- The clause at a position, counted from the end if it is negative. -/
def get? (d : Derivation) (i : Int) : Option Clause :=
  (position? d.size i).bind (d.clauses[·]?)

def get (d : Derivation) (i : Int) : Except Fault Clause :=
  match d.get? i with
  | some c => .ok c
  | none => .error (strayPosition i)

def parentsOf (d : Derivation) (c : Clause) : Except Fault (List Clause) := c.parents.mapM d.get

/-- Shows a clause as it is now in those of the places that are in this derivation. -/
def refresh (d : Derivation) (places : List Place) (c : Clause) : Derivation :=
  { d with
    clauses := places.foldl
      (fun clauses place =>
        if place.derivation = d.number then clauses.setIfInBounds place.position c else clauses)
      d.clauses }

def nextPlace (d : Derivation) : Place := ⟨d.number, d.size⟩

/-- The clause once it is registered. -/
def placed (d : Derivation) (c : Clause) : Clause := { c with places := d.nextPlace :: c.places }

/-- Puts a clause at the end; where it was before, it is shown with its new place. -/
def register (d : Derivation) (c : Clause) : Derivation :=
  let shown := d.refresh c.places (d.placed c)
  { shown with clauses := shown.clauses.push (d.placed c) }

@[simp] theorem refresh_nil (d : Derivation) (c : Clause) : d.refresh [] c = d := rfl

/-- A clause that was in no derivation goes to the end, and nothing else changes. -/
theorem toList_register {d : Derivation} {c : Clause} (h : c.places = []) :
    (d.register c).toList = d.toList ++ [d.placed c] := by
  simp [register, h, toList]

/-- The derivation of the clauses of a list, which are registered in order. -/
def ofList (cs : List Clause) : Derivation := cs.foldl register {}

end Derivation

end Clausal
