import Clausal.Proofs.Walk
import Mathlib.Data.List.Perm.Basic

/-!
# Proofs of any derivation

The derivations that runs record are well-founded, but the proof of an outcome can be asked for in any derivation: the
parents of a clause may be any integers, so that clauses name themselves or each other, or name nothing.  An integer
counts from the front, or from the end if it is negative.

* `Derivation.Stands d i c`: the clause `c` stands at the index `i`;
* `Derivation.Reaches d root i`: parents lead from the index `root` to `i`;
* `Outcome.proof_total`: the proof has an entry for each index that is reached, unless one of them is out of range.
-/

namespace Clausal

namespace Derivation

/-! ## Indices -/

/-- The clause stands at the index, counted from the front or from the end. -/
def Stands (d : Derivation) (i : Int) (c : Clause) : Prop :=
  ∃ n : Nat, d.toList[n]? = some c ∧ (i = n ∨ i = n - d.size)

/-- The index is in range. -/
def Within (d : Derivation) (i : Int) : Prop := -d.size ≤ i ∧ i < d.size

/-- The indices to which parents lead from a root. -/
inductive Reaches (d : Derivation) (root : Int) : Int → Prop
  | root : Reaches d root root
  | parent {i j : Int} {c : Clause} (h : Reaches d root i) (hc : d.Stands i c) (hj : j ∈ c.parents) :
      Reaches d root j

variable {d : Derivation} {i j root : Int} {c : Clause} {names : List Int} {cs : List Clause}

/-- An index in range is that of a position. -/
theorem Within.exists_position (h : d.Within i) : ∃ n < d.size, d.get? i = d.toList[n]? ∧ (i = n ∨ i = n - d.size) := by
  obtain ⟨hlow, hhigh⟩ := h
  rcases Int.lt_or_le i 0 with hi | hi
  · obtain ⟨n, rfl⟩ : ∃ n : Nat, i = n - d.size := ⟨(i + d.size).toNat, by omega⟩
    have hn : n < d.size := by omega
    exact ⟨n, hn, get?_sub_size hn, .inr rfl⟩
  · lift i to Nat using hi
    exact ⟨i, by omega, get?_natCast d i, .inl rfl⟩

theorem get?_eq_some_iff : d.get? i = some c ↔ d.Stands i c := by
  constructor
  · intro h
    obtain ⟨n, -, hget, hi⟩ := Within.exists_position (bounds_of_get? h)
    exact ⟨n, hget ▸ h, hi⟩
  · rintro ⟨n, hn, rfl | rfl⟩
    · rw [get?_natCast, hn]
    · have hlt : n < d.toList.length := (List.getElem?_eq_some_iff.1 hn).1
      rw [get?_sub_size hlt, hn]

theorem isSome_get?_iff : (d.get? i).isSome = true ↔ d.Within i := by
  constructor
  · intro h
    obtain ⟨c, hc⟩ := Option.isSome_iff_exists.1 h
    exact bounds_of_get? hc
  · intro h
    obtain ⟨n, hn, hget, -⟩ := h.exists_position
    have hlength : n < d.toList.length := hn
    simp [hget, hlength]

theorem reaches_iff : d.Reaches root j ↔ d.Leads root j := by
  constructor
  · intro h
    induction h with
    | root => exact .refl
    | parent _ hc hj ih => exact ih.tail ⟨_, get?_eq_some_iff.2 hc, hj⟩
  · intro h
    induction h with
    | refl => exact .root
    | tail _ hnames ih =>
      obtain ⟨c, hc, hj⟩ := hnames
      exact ih.parent (get?_eq_some_iff.1 hc) hj

theorem mapM_get_eq_ok_iff : names.mapM d.get = .ok cs ↔ List.Forall₂ d.Stands names cs := by
  rw [mapM_eq_ok_iff]
  simp only [get_eq_ok_iff, get?_eq_some_iff]

/-! ## The end of a walk -/

/-- **A longer queue makes no difference.** -/
theorem visit_eq_reachable {fuel : Nat} (hfuel : d.queueBound ≤ fuel) : d.visit fuel [] [root] = d.reachable root :=
  (d.visit_eq_reach root hfuel (Nat.lt_succ_self _)).trans (d.reachable_eq_reach root).symm

/-- **More generations than there are names make no difference.** -/
theorem reach_eq_reachable {fuel : Nat} (hfuel : 2 * d.size < fuel) : d.reach fuel [] [root] = d.reachable root :=
  (d.visit_eq_reach root le_rfl hfuel).symm

/-! ## What is collected -/

/-- The steps are in the order of their numbers, and there is one for each index that is reached from the root, namely
the clause that stands there. -/
structure Gathers (d : Derivation) (root : Int) (steps : List Clause) : Prop where
  entries : ∃ names : List Int, names.Nodup ∧ (∀ i, i ∈ names ↔ d.Reaches root i) ∧
    List.Forall₂ d.Stands names steps
  ordered : steps.Pairwise (·.id ≤ ·.id)

theorem Walked.gathers (h : d.Walked root names) (hcs : names.mapM d.get = .ok cs) :
    d.Gathers root (sorted (fun c c' => decide (c.id ≤ c'.id)) cs) := by
  refine ⟨?_, pairwise_sorted_key Clause.id cs⟩
  -- the names are put in the order of the clauses
  obtain ⟨names', hstand, hperm⟩ :=
    List.perm_comp_forall₂ (sorted_perm _ cs) (mapM_get_eq_ok_iff.1 hcs).flip
  refine ⟨names', hperm.nodup_iff.2 h.nodup, fun i => ?_, hstand.flip⟩
  rw [hperm.mem_iff, h.mem_iff, reaches_iff]

end Derivation

namespace Outcome

variable {o : Outcome} {root : Int}

theorem proof_eq_error {fault : Fault} (hproven : o.verdict = .proven root)
    (hfault : o.derivation.reachable root = .error fault) : o.proof = .error fault := by
  unfold Outcome.proof
  rw [hproven]
  simp only [bind, Except.bind, hfault]

theorem gathered_or_stray (hproven : o.verdict = .proven root) :
    ((∀ i, o.derivation.Reaches root i → o.derivation.Within i) ∧
      ∃ steps, o.proof = .ok steps ∧ o.derivation.Gathers root steps) ∨
    ∃ i, o.derivation.Reaches root i ∧ ¬o.derivation.Within i ∧ o.proof = .error (strayPosition i) := by
  have hwalk := Derivation.walked_reachable o.derivation root
  cases hreachable : o.derivation.reachable root with
  | ok names =>
    rw [hreachable] at hwalk
    have hwalked : o.derivation.Walked root names := hwalk
    obtain ⟨cs, hcs⟩ := hwalked.exists_clauses
    refine .inl ⟨fun i hi => ?_, _, proof_eq hproven hreachable hcs, hwalked.gathers hcs⟩
    exact Derivation.isSome_get?_iff.1 (hwalked.valid i ((hwalked.mem_iff i).2 (Derivation.reaches_iff.1 hi)))
  | error fault =>
    rw [hreachable] at hwalk
    obtain ⟨i, hleads, hnone, rfl⟩ := hwalk
    refine .inr ⟨i, Derivation.reaches_iff.2 hleads, fun hwithin => ?_, proof_eq_error hproven hreachable⟩
    rw [← Derivation.isSome_get?_iff, hnone] at hwithin
    cases hwithin

/-- **A proof can be asked for in any derivation.**  The walk comes to an end, with the queue and by generations: with a
larger bound it finds the same.  The answer is a fault exactly if an index is reached that is out of range, and it is
the fault of such an index; otherwise it is what is gathered from the root. -/
theorem proof_total (hproven : o.verdict = .proven root) :
    (∀ fuel, o.derivation.queueBound ≤ fuel → o.derivation.visit fuel [] [root] = o.derivation.reachable root) ∧
    (∀ fuel, 2 * o.derivation.size < fuel → o.derivation.reach fuel [] [root] = o.derivation.reachable root) ∧
    ((∃ fault, o.proof = .error fault) ↔ ∃ i, o.derivation.Reaches root i ∧ ¬o.derivation.Within i) ∧
    (∀ fault, o.proof = .error fault →
      ∃ i, o.derivation.Reaches root i ∧ ¬o.derivation.Within i ∧ fault = strayPosition i) ∧
    ((∀ i, o.derivation.Reaches root i → o.derivation.Within i) →
      ∃ steps, o.proof = .ok steps ∧ o.derivation.Gathers root steps) := by
  refine ⟨fun fuel => Derivation.visit_eq_reachable, fun fuel => Derivation.reach_eq_reachable, ?_⟩
  rcases gathered_or_stray hproven with ⟨hwithin, steps, hok, hgathers⟩ | ⟨i, hreaches, hstray, herror⟩
  · refine ⟨⟨?_, ?_⟩, fun fault hfault => ?_, fun _ => ⟨steps, hok, hgathers⟩⟩
    · rintro ⟨fault, hfault⟩
      cases hok.symm.trans hfault
    · rintro ⟨i, hreaches, hstray⟩
      exact absurd (hwithin i hreaches) hstray
    · cases hok.symm.trans hfault
  · refine ⟨⟨fun _ => ⟨i, hreaches, hstray⟩, fun _ => ⟨_, herror⟩⟩, fun fault hfault => ?_, fun hwithin => ?_⟩
    · exact ⟨i, hreaches, hstray, Except.error.inj (hfault.symm.trans herror)⟩
    · exact absurd (hwithin i hreaches) hstray

/-- The first clause is its own parent, the first two name each other, and the last one is reached from the end.  With
it the first one is reached once more, so that it has two entries.  From the end of the other derivation an index out of
range is reached. -/
theorem proof_total_circular :
    let c : Clause := { literals := .empty, id := 3, parents := [0, 1, 1, -1] }
    let c' : Clause := { literals := .singleton ⟨"p", false⟩, id := 1, parents := [0] }
    let c'' : Clause := { literals := .singleton ⟨"q", false⟩, id := 2, parents := [-3] }
    let o : Outcome := ⟨none, { clauses := #[c, c', c''] }, [], .proven 0⟩
    let o' : Outcome := ⟨none, { clauses := #[c', { c'' with parents := [0, 2] }] }, [], .proven (-1)⟩
    o.verdict = .proven 0 ∧ o.proof = .ok [c', c'', c, c] ∧ o.derivation.Gathers 0 [c', c'', c, c] ∧
    o'.verdict = .proven (-1) ∧ o'.proof = .error .outOfRange ∧
      ∃ i, o'.derivation.Reaches (-1) i ∧ ¬o'.derivation.Within i := by
  intro c c' c'' o o'
  have hproven : o.verdict = .proven 0 := rfl
  have hproof : o.proof = .ok [c', c'', c, c] := by decide +kernel
  have hproven' : o'.verdict = .proven (-1) := rfl
  have hproof' : o'.proof = .error .outOfRange := by decide +kernel
  obtain ⟨-, -, hfault, -, hgathers⟩ := proof_total hproven
  have hwithin : ∀ i, o.derivation.Reaches 0 i → o.derivation.Within i := by
    intro i hi
    by_contra hstray
    obtain ⟨fault, hfault⟩ := hfault.2 ⟨i, hi, hstray⟩
    cases hproof.symm.trans hfault
  obtain ⟨steps, hsteps, hgathered⟩ := hgathers hwithin
  obtain rfl := Except.ok.inj (hproof.symm.trans hsteps)
  exact ⟨hproven, hproof, hgathered, hproven', hproof', (proof_total hproven').2.2.1.1 ⟨_, hproof'⟩⟩

end Outcome

end Clausal
