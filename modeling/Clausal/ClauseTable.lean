import Clausal.Clause.Basic

/-!
# Clause tables

A clause table holds at most one clause for each set of literals, in the order in which the sets came
in. `absorb` adds a clause and keeps the table free of subsumption.
-/

namespace Clausal

/-- Clauses with different literals, in the order in which they came in. -/
structure ClauseTable where
  toList : List Clause
  distinct : toList.Pairwise fun c d => c.literals ≠ d.literals

namespace ClauseTable

def empty : ClauseTable := ⟨[], .nil⟩

instance : Inhabited ClauseTable := ⟨empty⟩

def size (t : ClauseTable) : Nat := t.toList.length

def isEmpty (t : ClauseTable) : Bool := t.toList.isEmpty

def contains (t : ClauseTable) (s : LiteralSet) : Bool := t.toList.any (·.literals == s)

def filter (t : ClauseTable) (p : Clause → Bool) : ClauseTable :=
  ⟨t.toList.filter p, t.distinct.filter p⟩

def erase (t : ClauseTable) (s : LiteralSet) : ClauseTable := t.filter (·.literals != s)

/-- The table after a change of clauses that keeps their literals. -/
def map (t : ClauseTable) (f : Clause → Clause) (h : ∀ c, (f c).literals = c.literals) :
    ClauseTable :=
  ⟨t.toList.map f, List.pairwise_map.2 (t.distinct.imp fun hne => by rwa [h, h])⟩

theorem contains_iff {t : ClauseTable} {s : LiteralSet} :
    t.contains s = true ↔ ∃ c ∈ t.toList, c.literals = s := by
  simp [contains]

/-- The table with a clause of new literals at its end. -/
def append (t : ClauseTable) (c : Clause) (h : t.contains c.literals = false) : ClauseTable :=
  ⟨t.toList ++ [c], List.pairwise_append.2 ⟨t.distinct, by simp, fun d hd e he heq => by
    rw [List.mem_singleton.1 he] at heq
    exact absurd (contains_iff.2 ⟨d, hd, heq⟩) (by simp [h])⟩⟩

/-- The clause takes the place of the one with its literals, or goes to the end. -/
def put (t : ClauseTable) (c : Clause) : ClauseTable :=
  if h : t.contains c.literals = false then t.append c h
  else t.map (fun d => if d.literals = c.literals then c else d) fun d => by
    split
    · rename_i heq; exact heq.symm
    · rfl

@[simp] theorem toList_empty : empty.toList = [] := rfl

@[simp] theorem toList_filter (t : ClauseTable) (p : Clause → Bool) :
    (t.filter p).toList = t.toList.filter p := rfl

theorem toList_erase (t : ClauseTable) (s : LiteralSet) :
    (t.erase s).toList = t.toList.filter (·.literals != s) := rfl

theorem toList_put_of_new {t : ClauseTable} {c : Clause} (h : t.contains c.literals = false) :
    (t.put c).toList = t.toList ++ [c] := by
  rw [put, dif_pos h]
  rfl

theorem toList_put_of_contains {t : ClauseTable} {c : Clause} (h : t.contains c.literals = true) :
    (t.put c).toList = t.toList.map fun d => if d.literals = c.literals then c else d := by
  rw [put, dif_neg (by simp [h])]
  rfl

theorem contains_put {t : ClauseTable} {c : Clause} {s : LiteralSet} :
    (t.put c).contains s = true ↔ s = c.literals ∨ t.contains s = true := by
  cases h : t.contains c.literals with
  | false =>
    simp only [contains_iff, toList_put_of_new h, List.mem_append, List.mem_singleton]
    constructor
    · rintro ⟨d, hd | rfl, rfl⟩
      · exact .inr ⟨d, hd, rfl⟩
      · exact .inl rfl
    · rintro (rfl | ⟨d, hd, rfl⟩)
      · exact ⟨c, .inr rfl, rfl⟩
      · exact ⟨d, .inl hd, rfl⟩
  | true =>
    have hkeys : ((t.put c).toList.map Clause.literals) = t.toList.map Clause.literals := by
      rw [toList_put_of_contains h, List.map_map]
      refine List.map_congr_left fun d _ => ?_
      by_cases hd : d.literals = c.literals <;> simp [hd]
    have hmem : ∀ u : ClauseTable, u.contains s = true ↔ s ∈ u.toList.map Clause.literals := by
      intro u
      simp [contains_iff]
    rw [hmem, hkeys, ← hmem]
    refine ⟨.inr, ?_⟩
    rintro (rfl | hs)
    · exact h
    · exact hs

def putAll (t : ClauseTable) (cs : List Clause) : ClauseTable := cs.foldl put t

/-- The table of the clauses of a list, of which the last with the same literals counts. -/
def ofList (cs : List Clause) : ClauseTable := empty.putAll cs

/-- Adds a clause to a table free of subsumption: `none` if a member subsumes it, else the members that
it pushes out and the table without them and with the clause at its end. -/
def absorb (t : ClauseTable) (c : Clause) : Option (List Clause × ClauseTable) :=
  if c.redundantAgainst (t.toList.map some) = some .itself then none
  else some (t.toList.filter c.subsumes, (t.filter (!c.subsumes ·)).put c)

end ClauseTable

end Clausal
