import Clausal.Literal

/-!
# Sets of literals

A finite set of literals, held as its strictly increasing list, so that each set has one form. The list is the
order in which the set is shown and searched.
-/

namespace Clausal

/-- A finite set of literals, in increasing order. -/
structure LiteralSet where
  toList : List Literal
  increasing : toList.Pairwise (· < ·)
deriving DecidableEq

namespace LiteralSet

instance : Membership Literal LiteralSet := ⟨fun s l => l ∈ s.toList⟩

theorem mem_toList {l : Literal} {s : LiteralSet} : l ∈ s.toList ↔ l ∈ s := Iff.rfl

instance (l : Literal) (s : LiteralSet) : Decidable (l ∈ s) :=
  inferInstanceAs (Decidable (l ∈ s.toList))

/-- Every literal of the first set is in the second. -/
def subset (s t : LiteralSet) : Bool := s.toList.all fun l => decide (l ∈ t)

instance : HasSubset LiteralSet := ⟨fun s t => ∀ l, l ∈ s → l ∈ t⟩

theorem subset_def {s t : LiteralSet} : s ⊆ t ↔ ∀ l, l ∈ s → l ∈ t := Iff.rfl

theorem subset_iff {s t : LiteralSet} : s.subset t = true ↔ s ⊆ t := by
  simp [subset, subset_def, mem_toList]

instance (s t : LiteralSet) : Decidable (s ⊆ t) := decidable_of_iff _ subset_iff

theorem toList_inj {s t : LiteralSet} : s.toList = t.toList ↔ s = t := by
  cases s; cases t; simp

/-! ## Building sets -/

def empty : LiteralSet := ⟨[], .nil⟩

/-- The literal put at its place in an increasing list, unless it is there. -/
def insertInto (l : Literal) : List Literal → List Literal
  | [] => [l]
  | m :: ms => if l < m then l :: m :: ms else if l = m then m :: ms else m :: insertInto l ms

theorem mem_insertInto {l m : Literal} {ms : List Literal} :
    m ∈ insertInto l ms ↔ m = l ∨ m ∈ ms := by
  induction ms with
  | nil => simp [insertInto]
  | cons x xs ih =>
    simp only [insertInto]
    split
    · simp
    · split
      · rename_i h; subst h; simp
      · simp only [List.mem_cons, ih]
        constructor
        · rintro (h | h | h) <;> simp [h]
        · rintro (h | h | h) <;> simp [h]

theorem increasing_insertInto {l : Literal} {ms : List Literal} (h : ms.Pairwise (· < ·)) :
    (insertInto l ms).Pairwise (· < ·) := by
  induction ms with
  | nil => simp [insertInto]
  | cons x xs ih =>
    have hx := List.pairwise_cons.1 h
    simp only [insertInto]
    split
    · rename_i hlt
      refine List.pairwise_cons.2 ⟨fun m hm => ?_, h⟩
      rcases List.mem_cons.1 hm with e | hm
      · exact e ▸ hlt
      · exact Literal.lt_trans hlt (hx.1 m hm)
    · split
      · exact h
      · rename_i hnlt hne
        refine List.pairwise_cons.2 ⟨fun m hm => ?_, ih hx.2⟩
        rcases mem_insertInto.1 hm with e | hm
        · exact e ▸ Literal.lt_of_not_lt hnlt hne
        · exact hx.1 m hm

def insert (l : Literal) (s : LiteralSet) : LiteralSet :=
  ⟨insertInto l s.toList, increasing_insertInto s.increasing⟩

def ofList (ls : List Literal) : LiteralSet := ls.foldr insert empty

def singleton (l : Literal) : LiteralSet := ⟨[l], by simp⟩

def erase (s : LiteralSet) (l : Literal) : LiteralSet :=
  ⟨s.toList.filter (· ≠ l), s.increasing.filter _⟩

def union (s t : LiteralSet) : LiteralSet := s.toList.foldr insert t

@[simp] theorem not_mem_empty {l : Literal} : ¬l ∈ empty := by
  simp [← mem_toList, empty]

@[simp] theorem mem_insert {l m : Literal} {s : LiteralSet} : m ∈ s.insert l ↔ m = l ∨ m ∈ s :=
  mem_insertInto

@[simp] theorem mem_singleton {l m : Literal} : m ∈ singleton l ↔ m = l := by
  simp [← mem_toList, singleton]

@[simp] theorem mem_erase {l m : Literal} {s : LiteralSet} : m ∈ s.erase l ↔ m ∈ s ∧ m ≠ l := by
  simp [← mem_toList, erase]

theorem mem_foldr_insert {m : Literal} {ls : List Literal} {s : LiteralSet} :
    m ∈ ls.foldr insert s ↔ m ∈ ls ∨ m ∈ s := by
  induction ls with
  | nil => simp
  | cons l ls ih => simp [ih, or_assoc]

@[simp] theorem mem_ofList {m : Literal} {ls : List Literal} : m ∈ ofList ls ↔ m ∈ ls := by
  simp [ofList, mem_foldr_insert]

@[simp] theorem mem_union {m : Literal} {s t : LiteralSet} : m ∈ s.union t ↔ m ∈ s ∨ m ∈ t := by
  simp [union, mem_foldr_insert, mem_toList]

/-! ## Questions about a set -/

def isEmpty (s : LiteralSet) : Bool := s.toList.isEmpty

/-- Does the set hold the complement of the literal? -/
def containsComplement (s : LiteralSet) (l : Literal) : Bool := decide (l.complement ∈ s)

/-- Does the set hold an atom and its negation? -/
def isTautology (s : LiteralSet) : Bool := s.toList.any s.containsComplement

/-- The text between two literals. -/
def separator : String := " v "

/-- The text of a set read as a disjunction; the empty one is a contradiction. -/
def name (s : LiteralSet) : String :=
  if s.isEmpty then "NIL" else separator.intercalate (s.toList.map Literal.name)

theorem isEmpty_iff {s : LiteralSet} : s.isEmpty = true ↔ s = empty := by
  rw [← toList_inj]
  simp [isEmpty, empty]

theorem isTautology_iff {s : LiteralSet} :
    s.isTautology = true ↔ ∃ l, l ∈ s ∧ l.complement ∈ s := by
  simp [isTautology, containsComplement, mem_toList]

end LiteralSet

end Clausal
