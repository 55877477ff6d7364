import Clausal.ClauseTable
import Clausal.Proofs.Subsumption

/-!
# Clause tables as collections of literal sets

`setsOf cs` is the collection of the literal sets of the clauses `cs`, and `t.sets` that of a table.  Each
operation of a table has one equation about `sets`.

`absorb` stops its search at the first member that is related to the new clause.  In a table free of
subsumption that member decides: if the new clause subsumes it, no member subsumes the new clause
(`redundantAgainst_eq_itself_iff`).  So `absorb` refuses a clause exactly when it is covered
(`absorb_eq_none_iff`), and else it puts the clause in place of what it subsumes (`toList_of_absorb`).
-/

namespace Clausal

/-- The literal sets of clauses. -/
def setsOf (cs : List Clause) : Set LiteralSet := {s | ∃ c ∈ cs, c.literals = s}

section SetsOf

variable {c : Clause} {cs ds : List Clause} {s : LiteralSet}

theorem mem_setsOf : s ∈ setsOf cs ↔ ∃ c ∈ cs, c.literals = s := Iff.rfl

@[simp] theorem setsOf_nil : setsOf [] = ∅ := by
  ext s
  simp [mem_setsOf]

@[simp] theorem setsOf_cons : setsOf (c :: cs) = insert c.literals (setsOf cs) := by
  ext s
  simp [mem_setsOf, eq_comm]

/-- Only the literals count. -/
theorem setsOf_eq_of_map (h : cs.map Clause.literals = ds.map Clause.literals) :
    setsOf cs = setsOf ds := by
  have hmem : ∀ es : List Clause, ∀ s, s ∈ setsOf es ↔ s ∈ es.map Clause.literals := by
    intro es s
    simp [mem_setsOf]
  ext s
  rw [hmem, h, ← hmem]

end SetsOf

namespace ClauseTable

/-- The literal sets of the clauses of a table. -/
def sets (t : ClauseTable) : Set LiteralSet := setsOf t.toList

variable {t u : ClauseTable} {c d : Clause} {cs out : List Clause} {s : LiteralSet}

theorem mem_sets : s ∈ t.sets ↔ ∃ c ∈ t.toList, c.literals = s := Iff.rfl

theorem literals_mem_sets (h : c ∈ t.toList) : c.literals ∈ t.sets := ⟨c, h, rfl⟩

theorem contains_iff_mem_sets : t.contains s = true ↔ s ∈ t.sets := contains_iff

theorem contains_eq_false_iff : t.contains s = false ↔ s ∉ t.sets := by
  rw [← contains_iff_mem_sets, Bool.not_eq_true]

/-! ## One equation for each operation -/

@[simp] theorem sets_empty : empty.sets = ∅ := setsOf_nil

theorem sets_eq_empty_iff : t.sets = ∅ ↔ t.toList = [] := by
  refine ⟨fun h => List.eq_nil_iff_forall_not_mem.2 fun c hc => ?_, fun h => ?_⟩
  · exact absurd (literals_mem_sets hc) (h ▸ Set.notMem_empty _)
  · rw [sets, h, setsOf_nil]

theorem isEmpty_iff : t.isEmpty = true ↔ t.sets = ∅ := by
  rw [sets_eq_empty_iff, isEmpty, List.isEmpty_iff]

@[simp] theorem sets_put : (t.put c).sets = insert c.literals t.sets := by
  ext s
  rw [← contains_iff_mem_sets, contains_put, contains_iff_mem_sets]
  rfl

theorem sets_putAll : (t.putAll cs).sets = t.sets ∪ setsOf cs := by
  induction cs generalizing t with
  | nil => simp [putAll]
  | cons c cs ih =>
    have hstep : t.putAll (c :: cs) = (t.put c).putAll cs := rfl
    rw [hstep, ih, sets_put, setsOf_cons, Set.insert_union, Set.union_insert]

@[simp] theorem sets_ofList : (ofList cs).sets = setsOf cs := by
  rw [ofList, sets_putAll, sets_empty, Set.empty_union]

theorem mem_sets_filter {p : Clause → Bool} :
    s ∈ (t.filter p).sets ↔ ∃ c ∈ t.toList, p c = true ∧ c.literals = s := by
  simp [mem_sets, and_assoc]

theorem sets_erase : (t.erase s).sets = t.sets \ {s} := by
  ext r
  rw [erase, mem_sets_filter, Set.mem_sdiff, mem_sets, Set.mem_singleton_iff]
  constructor
  · rintro ⟨c, hc, hne, rfl⟩
    exact ⟨⟨c, hc, rfl⟩, by simpa using hne⟩
  · rintro ⟨⟨c, hc, rfl⟩, hne⟩
    exact ⟨c, hc, by simpa using hne, rfl⟩

theorem sets_filter_not_contains : (t.filter fun c => !u.contains c.literals).sets = t.sets \ u.sets := by
  ext s
  simp only [mem_sets_filter, Bool.not_eq_true', contains_eq_false_iff, Set.mem_sdiff]
  constructor
  · rintro ⟨c, hc, hn, rfl⟩
    exact ⟨literals_mem_sets hc, hn⟩
  · rintro ⟨⟨c, hc, rfl⟩, hn⟩
    exact ⟨c, hc, hn, rfl⟩

/-- Takes clauses out one after the other. -/
theorem sets_foldl_erase :
    (cs.foldl (fun t c => t.erase c.literals) t).sets = t.sets \ setsOf cs := by
  induction cs generalizing t with
  | nil => simp
  | cons c cs ih =>
    rw [List.foldl_cons, ih, sets_erase, setsOf_cons, Set.sdiff_sdiff, Set.singleton_union]

/-! ## Absorbing a clause -/

/-- **The first related member decides.**  In a collection free of subsumption a clause is the redundant
one exactly if some member subsumes it. -/
theorem redundantAgainst_eq_itself_iff (h : IsAntichain (· ⊆ ·) (setsOf cs)) :
    c.redundantAgainst (cs.map some) = some .itself ↔ Covered (setsOf cs) c.literals := by
  induction cs with
  | nil => simp [Clause.redundantAgainst, Covered]
  | cons d cs ih =>
    have hcs : IsAntichain (· ⊆ ·) (setsOf cs) := h.subset (by simp)
    rw [List.map_cons, Clause.redundantAgainst]
    by_cases hdc : d.subsumes c = true
    · rw [if_pos hdc]
      refine iff_of_true rfl ⟨d.literals, by simp, Clause.subsumes_iff.1 hdc⟩
    rw [if_neg hdc]
    by_cases hcd : c.subsumes d = true
    · -- a member below `c` would be below `d`, hence it would be `d`
      rw [if_pos hcd]
      refine iff_of_false (by simp) ?_
      rintro ⟨e, he, hec⟩
      have hed : e = d.literals :=
        h.eq he (by simp) (LiteralSet.subset_trans hec (Clause.subsumes_iff.1 hcd))
      exact hdc (Clause.subsumes_iff.2 (hed ▸ hec))
    · rw [if_neg hcd]
      have hshift : ∀ o : Option Clause.Redundant,
          o.map Clause.Redundant.shift = some .itself ↔ o = some .itself := by
        rintro (_ | _ | _) <;> simp [Clause.Redundant.shift]
      rw [hshift, ih hcs]
      refine ⟨Covered.mono (by simp), ?_⟩
      rintro ⟨e, he, hec⟩
      rw [setsOf_cons] at he
      rcases he with rfl | he
      · exact absurd (Clause.subsumes_iff.2 hec) hdc
      · exact ⟨e, he, hec⟩

theorem absorb_eq_none_iff (h : IsAntichain (· ⊆ ·) t.sets) :
    t.absorb c = none ↔ Covered t.sets c.literals := by
  rw [sets, ← redundantAgainst_eq_itself_iff h, absorb]
  split <;> simp_all

/-- A clause that is taken in goes to the end, behind the members that it does not subsume. -/
theorem toList_of_absorb (h : t.absorb c = some (out, u)) :
    out = t.toList.filter c.subsumes ∧ u.toList = t.toList.filter (!c.subsumes ·) ++ [c] := by
  rw [absorb] at h
  split at h
  · cases h
  · cases h
    refine ⟨rfl, ?_⟩
    rw [toList_put_of_new, toList_filter]
    -- nothing with the literals of `c` is left, since `c` subsumes it
    rw [contains_eq_false_iff, mem_sets_filter]
    rintro ⟨d, -, hd, he⟩
    rw [Bool.not_eq_true', Bool.eq_false_iff] at hd
    exact hd (Clause.subsumes_iff.2 (he ▸ LiteralSet.subset_rfl))

theorem sets_of_absorb (h : t.absorb c = some (out, u)) :
    u.sets = insert c.literals {s | s ∈ t.sets ∧ ¬c.literals ⊆ s} := by
  rw [sets, (toList_of_absorb h).2]
  ext s
  simp only [mem_setsOf, List.mem_append, List.mem_filter, List.mem_singleton, Set.mem_insert_iff,
    Set.mem_ofPred_eq, mem_sets, Bool.not_eq_true', Bool.eq_false_iff, ne_eq, Clause.subsumes_iff]
  constructor
  · rintro ⟨d, ⟨hd, hn⟩ | rfl, rfl⟩
    · exact .inr ⟨⟨d, hd, rfl⟩, hn⟩
    · exact .inl rfl
  · rintro (rfl | ⟨⟨d, hd, rfl⟩, hn⟩)
    · exact ⟨c, .inr rfl, rfl⟩
    · exact ⟨d, .inl ⟨hd, hn⟩, rfl⟩

end ClauseTable

end Clausal
