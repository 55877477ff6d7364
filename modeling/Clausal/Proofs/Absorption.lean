import Clausal.Proofs.Bookkeeping

/-!
# Absorbing a clause, one deletion after the other

A clause that is taken into a table pushes out the members that it subsumes.  They are collected first and then deleted
by their literals, and a deletion fails if nothing with these literals is left.  That this never happens, and that the
first related member decides whether the clause is taken in, rests on the members being pairwise unrelated, which is so
again afterwards.

* `ClauseTable.deleteAll`, `ClauseTable.absorbStepwise`: the deletions, and the whole call, with the failure of a
  deletion as `none`;
* `ClauseTable.deleteAll_filter`: the members that satisfy a test can be deleted one after the other;
* `ClauseTable.Unrelated`: the members are pairwise unrelated;
* `ClauseTable.absorbs_exactly`: what absorbing a clause does to such a table.
-/

namespace Clausal

theorem LiteralSet.subset_not_subset_iff_lt (s t : LiteralSet) : s ⊆ t ∧ ¬t ⊆ s ↔ s < t := Iff.rfl

instance (s t : LiteralSet) : Decidable (s < t) := decidable_of_iff _ (LiteralSet.subset_not_subset_iff_lt s t)

/-- Neither clause subsumes the other. -/
def Clause.Unrelated (c d : Clause) : Prop := ¬c.literals ⊆ d.literals ∧ ¬d.literals ⊆ c.literals

instance (c d : Clause) : Decidable (c.Unrelated d) := inferInstanceAs (Decidable (_ ∧ _))

/-- A clause subsumes properly what does not subsume it. -/
theorem Clause.subsumes_eq_lt {c d : Clause} (h : ¬d.literals ⊆ c.literals) :
    c.subsumes d = decide (c.literals < d.literals) := by
  rw [Bool.eq_iff_iff, subsumes_iff, decide_eq_true_iff]
  exact ⟨fun hcd => ⟨hcd, h⟩, fun hcd => hcd.1⟩

namespace ClauseTable

variable {t u : ClauseTable} {c d : Clause} {cs : List Clause} {s : LiteralSet}

theorem toList_inj : t.toList = u.toList ↔ t = u := by
  cases t
  cases u
  simp

/-! ## Deletions -/

/-- The table without the clause of these literals, which has to be there. -/
def delete (t : ClauseTable) (s : LiteralSet) : Option ClauseTable :=
  if t.contains s then some (t.erase s) else none

/-- Deletes clauses one after the other. -/
def deleteAll (t : ClauseTable) (cs : List Clause) : Option ClauseTable :=
  cs.foldlM (fun t c => t.delete c.literals) t

theorem contains_erase_of_ne (h : t.contains s = true) (hne : s ≠ c.literals) :
    (t.erase c.literals).contains s = true := by
  rw [contains_iff_mem_sets] at h ⊢
  rw [sets_erase]
  exact ⟨h, hne⟩

/-- Members with different literals can be deleted one after the other. -/
theorem deleteAll_eq (hmem : ∀ c ∈ cs, t.contains c.literals = true)
    (hne : cs.Pairwise fun c d => c.literals ≠ d.literals) :
    t.deleteAll cs = some (cs.foldl (fun t c => t.erase c.literals) t) := by
  induction cs generalizing t with
  | nil => rfl
  | cons c cs ih =>
    obtain ⟨hfirst, hrest⟩ := List.pairwise_cons.1 hne
    have hdelete : t.delete c.literals = some (t.erase c.literals) := if_pos (hmem c (by simp))
    have hstep : t.deleteAll (c :: cs) = (t.erase c.literals).deleteAll cs := by
      simp [deleteAll, hdelete]
    rw [hstep]
    apply ih _ hrest
    intro d hd
    exact contains_erase_of_ne (hmem d (by simp [hd])) (hfirst d hd).symm

theorem toList_foldl_erase : (cs.foldl (fun t c => t.erase c.literals) t).toList =
    t.toList.filter fun d => cs.all (d.literals != ·.literals) := by
  induction cs generalizing t with
  | nil => simp
  | cons c cs ih =>
    rw [List.foldl_cons, ih, toList_erase, List.filter_filter]
    simp only [List.all_cons, Bool.and_comm]

/-- **Deletions do not get in each other's way.**  The members that satisfy a test can be deleted one after the other,
and the others are left. -/
theorem deleteAll_filter (t : ClauseTable) (p : Clause → Bool) :
    t.deleteAll (t.toList.filter p) = some (t.filter (!p ·)) := by
  have hmem : ∀ c ∈ t.toList.filter p, t.contains c.literals = true :=
    fun c hc => contains_iff.2 ⟨c, List.mem_of_mem_filter hc, rfl⟩
  rw [deleteAll_eq hmem (t.distinct.filter p), Option.some.injEq, ← toList_inj, toList_foldl_erase, toList_filter]
  refine List.filter_congr fun d hd => ?_
  rw [Bool.eq_iff_iff, List.all_eq_true, Bool.not_eq_true', Bool.eq_false_iff]
  constructor
  · intro hall hp
    have hself := hall d (List.mem_filter.2 ⟨hd, hp⟩)
    simp at hself
  · intro hp c hc
    obtain ⟨hc, hpc⟩ := List.mem_filter.1 hc
    rw [bne_iff_ne]
    intro heq
    exact hp (eq_of_literals_eq hd hc heq ▸ hpc)

/-! ## The whole call -/

/-- Absorbs a clause one step after the other.  The answer is `none` if a member subsumes the clause, else the members
that it pushes out; with it comes the table afterwards.  The call as a whole fails if a clause that is to be deleted is
not there. -/
def absorbStepwise (t : ClauseTable) (c : Clause) : Option (Option (List Clause) × ClauseTable) :=
  if c.redundantAgainst (t.toList.map some) = some .itself then some (none, t)
  else do
    let out := t.toList.filter c.subsumes
    let rest ← t.deleteAll out
    return (some out, rest.put c)

/-- **No deletion fails**, and step by step the clause is absorbed. -/
theorem absorbStepwise_eq (t : ClauseTable) (c : Clause) : t.absorbStepwise c =
    some (((t.absorb c).map Prod.fst), ((t.absorb c).map Prod.snd).getD t) := by
  unfold absorbStepwise absorb
  split
  · rfl
  · simp [deleteAll_filter]

/-! ## Tables free of subsumption -/

/-- The members of the table are pairwise unrelated. -/
def Unrelated (t : ClauseTable) : Prop := t.toList.Pairwise Clause.Unrelated

instance (t : ClauseTable) : Decidable t.Unrelated := inferInstanceAs (Decidable (List.Pairwise _ _))

theorem unrelated_iff : t.Unrelated ↔ IsAntichain (· ⊆ ·) t.sets := by
  have hsymm : Std.Symm Clause.Unrelated := ⟨fun _ _ h => ⟨h.2, h.1⟩⟩
  constructor
  · rintro h _ ⟨c, hc, rfl⟩ _ ⟨d, hd, rfl⟩ hne
    have hcd : c ≠ d := fun heq => hne (heq ▸ rfl)
    exact (h.forall hc hd hcd).1
  · intro h
    refine t.distinct.imp_of_mem fun {c d} hc hd hne => ⟨?_, ?_⟩
    · exact h (literals_mem_sets hc) (literals_mem_sets hd) hne
    · exact h (literals_mem_sets hd) (literals_mem_sets hc) hne.symm

theorem Unrelated.of_absorb {out : List Clause} (h : t.Unrelated) (habsorb : t.absorb c = some (out, u)) :
    u.Unrelated := by
  have hcover : ∀ d ∈ t.toList, ¬d.literals ⊆ c.literals := by
    intro d hd hdc
    have hnone := (absorb_eq_none_iff (unrelated_iff.1 h)).2 ⟨d.literals, literals_mem_sets hd, hdc⟩
    rw [hnone] at habsorb
    cases habsorb
  unfold Unrelated
  rw [(toList_of_absorb habsorb).2, List.pairwise_append]
  refine ⟨h.filter _, by simp, fun d hd b hb => ?_⟩
  -- a member that stays is not below the clause, nor is the clause below it
  obtain ⟨hd, hstays⟩ := List.mem_filter.1 hd
  rw [List.mem_singleton.1 hb]
  rw [Bool.not_eq_true', Bool.eq_false_iff, ne_eq, Clause.subsumes_iff] at hstays
  exact ⟨hcover d hd, hstays⟩

/-- **What absorbing a clause does to a table free of subsumption.**  No deletion fails.  The clause is refused, and
the table stays as it is, exactly if a member has no other literals than the clause.  Otherwise the members with
more literals than the clause are pushed out, in their order, the others stay in theirs with the clause behind them,
and the table is again free of subsumption. -/
theorem absorbs_exactly (h : t.Unrelated) (c : Clause) :
    ∃ answer u, t.absorbStepwise c = some (answer, u) ∧ t.absorb c = answer.map (·, u) ∧
      ((answer = none ∧ u = t) ↔ ∃ d ∈ t.toList, d.literals ⊆ c.literals) ∧
      ((∀ d ∈ t.toList, ¬d.literals ⊆ c.literals) →
        answer = some (t.toList.filter (c.literals < ·.literals)) ∧
        u.toList = t.toList.filter (¬c.literals < ·.literals) ++ [c] ∧ u.Unrelated) := by
  have hcovered : t.absorb c = none ↔ ∃ d ∈ t.toList, d.literals ⊆ c.literals := by
    rw [absorb_eq_none_iff (unrelated_iff.1 h)]
    constructor
    · rintro ⟨_, ⟨d, hd, rfl⟩, hdc⟩
      exact ⟨d, hd, hdc⟩
    · rintro ⟨d, hd, hdc⟩
      exact ⟨d.literals, literals_mem_sets hd, hdc⟩
  refine ⟨_, _, absorbStepwise_eq t c, ?_⟩
  cases habsorb : t.absorb c with
  | none =>
    have hmember := hcovered.1 habsorb
    refine ⟨rfl, iff_of_true ⟨rfl, rfl⟩ hmember, fun hnone => ?_⟩
    obtain ⟨d, hd, hdc⟩ := hmember
    exact absurd hdc (hnone d hd)
  | some result =>
    obtain ⟨out, u⟩ := result
    have hnone : ∀ d ∈ t.toList, ¬d.literals ⊆ c.literals := by
      intro d hd hdc
      have := hcovered.2 ⟨d, hd, hdc⟩
      rw [habsorb] at this
      cases this
    have hproper : ∀ d ∈ t.toList, c.subsumes d = decide (c.literals < d.literals) :=
      fun d hd => Clause.subsumes_eq_lt (hnone d hd)
    obtain ⟨hout, hu⟩ := toList_of_absorb habsorb
    refine ⟨rfl, iff_of_false (by simp) ?_, fun _ => ⟨?_, ?_, h.of_absorb habsorb⟩⟩
    · rintro ⟨d, hd, hdc⟩
      exact hnone d hd hdc
    · rw [Option.map_some, hout, List.filter_congr hproper]
    · rw [Option.map_some, Option.getD_some, hu]
      refine congrArg (· ++ [c]) (List.filter_congr fun d hd => ?_)
      rw [hproper d hd, decide_not]

/-- A clause that pushes out the first and the last of three members, and one that the second member subsumes. -/
theorem absorbs_exactly_between :
    let p : Literal := ⟨"p", false⟩
    let q : Literal := ⟨"q", false⟩
    let r : Literal := ⟨"r", false⟩
    let s : Literal := ⟨"s", true⟩
    let first : Clause := { literals := .ofList [p, q, r], id := 1 }
    let second : Clause := { literals := .ofList [s], id := 2 }
    let third : Clause := { literals := .ofList [q, p, r.complement], id := 3 }
    let c : Clause := { literals := .ofList [p, q], id := 4 }
    let t := ofList [first, second, third]
    t.Unrelated ∧ (∀ d ∈ t.toList, ¬d.literals ⊆ c.literals) ∧
      (∃ u, t.absorbStepwise c = some (some [first, third], u) ∧ u.toList = [second, c] ∧ u.Unrelated) ∧
      second ∈ t.toList ∧ t.absorbStepwise { c with literals := .ofList [r, s] } = some (none, t) := by
  intro p q r s first second third c t
  have h : t.Unrelated := by decide +kernel
  have hnone : ∀ d ∈ t.toList, ¬d.literals ⊆ c.literals := by decide +kernel
  have hsecond : second ∈ t.toList := by decide +kernel
  have hpushed : t.toList.filter (c.literals < ·.literals) = [first, third] := by decide +kernel
  obtain ⟨answer, u, hcall, -, -, hout⟩ := absorbs_exactly h c
  obtain ⟨rfl, hu, hunrelated⟩ := hout hnone
  obtain ⟨answer', u', hcall', -, hrefused, -⟩ := absorbs_exactly h { c with literals := .ofList [r, s] }
  obtain ⟨rfl, rfl⟩ := hrefused.2 ⟨second, hsecond, by decide +kernel⟩
  refine ⟨h, hnone, ⟨u, ?_, ?_, hunrelated⟩, hsecond, hcall'⟩
  · rw [hcall, hpushed]
  · rw [hu]
    decide +kernel

end ClauseTable

end Clausal
