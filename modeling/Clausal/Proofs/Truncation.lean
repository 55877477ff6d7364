import Clausal.Proofs.Record
import Clausal.Proofs.Verdict

/-!
# Runs with a limit

The limit on the rounds is looked at before each of them, and nothing else depends on it.  A run with a limit is
therefore the run without one, broken off before the first round beyond the limit.

* `Engine.Extends`: a derivation goes on from another one;
* `Engine.search_step`: what a search does next if it is not at its limit, said for all limits at once;
* `Engine.search_of_length_le`, `Engine.search_of_lt_length`: a limit that is not reached makes no difference, and one
  that is reached breaks the search off;
* `Engine.limit_truncates`: the same of whole runs.
-/

namespace Clausal

namespace Engine

variable {e : Engine} {past : List Lap} {fuel : Nat}

/-! ## Searches -/

/-- The derivation of the second engine goes on from that of the first. -/
def Extends (e e' : Engine) : Prop := e.derivation.toList <+: e'.derivation.toList

theorem persistent_extends : Persistent Extends where
  refl _ := List.prefix_rfl
  trans h h' := List.IsPrefix.trans h h'
  register e c hc := by
    show e.derivation.toList <+: (e.derivation.register c).toList
    rw [Derivation.toList_register hc]
    exact List.prefix_append _ _
  update _ _ _ h := h

theorem atLimit_eq_false_iff {k : Int} {n : Nat} : atLimit (some k) n = false ↔ n < k := by
  simp [atLimit]

/-- A search that is not at its limit makes a round, after which it is over or goes on, whatever the limit is. -/
theorem search_step (fuel : Nat) (e : Engine) (past : List Lap) : ∃ (e₁ : Engine) (lap : Lap),
    (∃ verdict, ∀ limit, atLimit limit past.length = false →
      search limit none (fuel + 1) e past = (.decided verdict, e₁, past ++ [lap])) ∨
    ∀ limit, atLimit limit past.length = false →
      search limit none (fuel + 1) e past = search limit none fuel e₁ (past ++ [lap]) := by
  cases hround : e.round (past.length + 1) with
  | mk report e₁ =>
    refine ⟨e₁, ⟨report, e₁.view⟩, ?_⟩
    cases hending : report.ending with
    | refuted i =>
      refine .inl ⟨.proven i, fun limit hlimit => ?_⟩
      simp [search, hlimit, hround, hending]
    | stalled =>
      refine .inl ⟨.unknown .fixpoint, fun limit hlimit => ?_⟩
      simp [search, hlimit, hround, hending]
    | productive =>
      refine .inr fun limit hlimit => ?_
      simp [search, hlimit, hround, hending]

/-- The rounds of a search come after the rounds before it. -/
theorem prefix_search (fuel : Nat) (e : Engine) (past : List Lap) :
    past <+: (search none none fuel e past).2.2 := by
  induction fuel generalizing e past with
  | zero => exact List.prefix_rfl
  | succ fuel ih =>
    obtain ⟨e₁, lap, ⟨verdict, hover⟩ | hmore⟩ := search_step fuel e past
    · rw [hover none rfl]
      exact List.prefix_append _ _
    · rw [hmore none rfl]
      exact (List.prefix_append _ _).trans (ih _ _)

/-- **A limit that is not reached makes no difference.** -/
theorem search_of_length_le {k : Int} (hk : (search none none fuel e past).2.2.length ≤ k) :
    search (some k) none fuel e past = search none none fuel e past := by
  induction fuel generalizing e past with
  | zero => rfl
  | succ fuel ih =>
    obtain ⟨e₁, lap, ⟨verdict, hover⟩ | hmore⟩ := search_step fuel e past
    · rw [hover none rfl] at hk ⊢
      refine hover _ (atLimit_eq_false_iff.2 ?_)
      rw [List.length_append, List.length_singleton] at hk
      omega
    · rw [hmore none rfl] at hk ⊢
      have hlength := (prefix_search fuel e₁ (past ++ [lap])).length_le
      rw [List.length_append, List.length_singleton] at hlength
      rw [hmore _ (atLimit_eq_false_iff.2 (by omega))]
      exact ih hk

/-- **A limit that is reached breaks the search off**, and what has been registered until then is the beginning of what
the search without a limit registers. -/
theorem search_of_lt_length {k : Nat} (hpast : past.length ≤ k)
    (hk : k < (search none none fuel e past).2.2.length) : ∃ e₁,
      search (some k) none fuel e past =
        (.decided (.unknown .roundLimit), e₁, (search none none fuel e past).2.2.take k) ∧
      e₁.Extends (search none none fuel e past).2.1 := by
  induction fuel generalizing e past with
  | zero =>
    have hlt : k < past.length := hk
    omega
  | succ fuel ih =>
    by_cases hreached : past.length = k
    · have hlimit : atLimit (some (k : Int)) past.length = true := by
        simp [atLimit, hreached]
      refine ⟨e, ?_, persistent_extends.search none none _ _ _⟩
      rw [search, if_pos hlimit, ← hreached, ← List.prefix_iff_eq_take.1 (prefix_search (fuel + 1) e past)]
    have hlimit : atLimit (some (k : Int)) past.length = false := by
      rw [atLimit_eq_false_iff]
      omega
    obtain ⟨e₁, lap, ⟨verdict, hover⟩ | hmore⟩ := search_step fuel e past
    · rw [hover none rfl] at hk
      simp only [List.length_append, List.length_singleton] at hk
      omega
    · rw [hmore none rfl] at hk ⊢
      rw [hmore _ hlimit]
      refine ih ?_ hk
      rw [List.length_append, List.length_singleton]
      omega

/-- A limit of zero or below is reached before the first round. -/
theorem search_of_nonpos {k : Int} (hk : k ≤ 0) :
    search (some k) none (fuel + 1) e [] = (.decided (.unknown .roundLimit), e, []) := by
  have hlimit : atLimit (some k) ([] : List Lap).length = true := by
    simpa [atLimit] using hk
  rw [search, if_pos hlimit]

/-! ## Runs -/

theorem proceed_of_nonpos {k : Int} (hk : k ≤ 0) (e : Engine) :
    e.proceed (some k) none [] = (.decided (.unknown .roundLimit), e, []) := search_of_nonpos hk

theorem pursue_of_nonpos {k : Int} (hk : k ≤ 0) (goal : Clause) : e.pursue goal (some k) = e.pursue goal (some 0) := by
  cases hfind : findConflict [] e.start.1 with
  | some pair => rw [pursue_of_conflict hfind, pursue_of_conflict hfind]
  | none =>
    have hproceed := proceed_of_nonpos hk e.start.2
    have hproceed' := proceed_of_nonpos le_rfl e.start.2
    rw [pursue_of_search hfind (congrArg Prod.fst hproceed), pursue_of_search hfind (congrArg Prod.fst hproceed'),
      hproceed, hproceed']

/-- A limit that the rounds of a run do not exceed. -/
theorem pursue_of_length_le {goal : Clause} {k : Int} (hk : (e.pursue goal none).1.history.length ≤ k) :
    e.pursue goal (some k) = e.pursue goal none := by
  cases hfind : findConflict [] e.start.1 with
  | some pair => rw [pursue_of_conflict hfind, pursue_of_conflict hfind]
  | none =>
    obtain ⟨verdict, hverdict⟩ := exists_verdict_proceed e.start.2 none
    rw [pursue_of_search hfind hverdict] at hk ⊢
    have hlength : ((e.start.2.proceed none none []).2.2.length : Int) ≤ k := by simpa [Run.history] using hk
    have hproceed : e.start.2.proceed (some k) none [] = e.start.2.proceed none none [] := search_of_length_le hlength
    rw [pursue_of_search hfind (hproceed ▸ hverdict), hproceed]

/-- A limit that the rounds of a run exceed. -/
theorem pursue_of_lt_length {goal : Clause} {k : Nat} {r r' : Run} {e₁ e₁' : Engine} (h : e.Archived)
    (hrun : e.pursue goal none = (r, e₁)) (hrun' : e.pursue goal (some k) = (r', e₁')) (hk : k < r.history.length) :
    r'.verdict = .unknown .roundLimit ∧ r'.history = r.history.take k ∧
      (e₁'.outcome r').derivation.toList <+: (e₁.outcome r).derivation.toList := by
  cases hfind : findConflict [] e.start.1 with
  | some pair =>
    -- there are no rounds
    rw [pursue_of_conflict hfind] at hrun
    cases hrun
    simp [Run.history] at hk
  | none =>
    obtain ⟨verdict, hverdict⟩ := exists_verdict_proceed e.start.2 none
    have hsteady : ∀ limit, e.start.2.Steady (e.start.2.proceed limit none []).2.1 :=
      fun limit => steady_search limit none _ _ _
    rw [pursue_of_search hfind hverdict] at hrun
    cases hrun
    have hlength : k < (e.start.2.proceed none none []).2.2.length := by simpa [Run.history] using hk
    obtain ⟨e₂, hproceed, hextends⟩ := search_of_lt_length (Nat.zero_le k) hlength
    rw [pursue_of_search hfind (congrArg Prod.fst hproceed)] at hrun'
    cases hrun'
    refine ⟨rfl, ?_, ?_⟩
    · simp only [Run.history]
      rw [← List.map_take]
      exact congrArg _ (congrArg (·.2.2) hproceed)
    · simp only [outcome]
      rw [derivationAt_reset h (hsteady none), derivationAt_reset h (hsteady (some k))]
      have hbroken : (e.start.2.proceed (some k) none []).2.1 = e₂ := congrArg (·.2.1) hproceed
      rw [hbroken]
      exact hextends

/-- **The limit only truncates.**  A run without a limit returns, and a limit that is not below the number of its rounds
makes no difference to what it returns and leaves.  With a lower one the run is broken off, its history is the beginning
of the other one, and so is its derivation.  Below zero the limit is as good as zero. -/
theorem limit_truncates {goal : Clause} (h : e.Attained) (hgoal : e.goal = some goal) :
    ∃ r e', e.run none = .ok (r, e') ∧ ((∃ i, r.verdict = .proven i) ∨ r.verdict = .unknown .fixpoint) ∧
      (∀ k : Int, r.history.length ≤ k → e.run (some k) = .ok (r, e')) ∧
      (∀ k : Nat, k < r.history.length → ∃ r' e'', e.run (some k) = .ok (r', e'') ∧
        r'.verdict = .unknown .roundLimit ∧ r'.history = r.history.take k ∧
        (e''.outcome r').derivation.toList <+: (e'.outcome r).derivation.toList) ∧
      ∀ k : Int, k < 0 → e.run (some k) = e.run (some 0) := by
  have hrun := run_eq hgoal none
  cases hpursue : e.pursue goal none with
  | mk r e' =>
    rw [hpursue] at hrun
    obtain ⟨-, hruns, -⟩ := h.tidy.settled.run hrun
    refine ⟨r, e', hrun, hruns.proven_or_fixpoint, fun k hk => ?_, fun k hk => ?_, fun k hk => ?_⟩
    · rw [run_eq hgoal, pursue_of_length_le (by rwa [hpursue]), hpursue]
    · cases hpursue' : e.pursue goal (some k) with
      | mk r' e'' =>
        have hrun' := run_eq hgoal (some (k : Int))
        rw [hpursue'] at hrun'
        exact ⟨r', e'', hrun', pursue_of_lt_length h.filed.toArchived hpursue hpursue' hk⟩
    · rw [run_eq hgoal, run_eq hgoal, pursue_of_nonpos hk.le]

theorem limit_truncates_chain :
    let goal : Clause := { literals := .singleton ⟨"c", false⟩ }
    let e := (Step.performAll [.add "a", .add "~a v b", .add "~b v c", .goal "c"] {}).2.engine
    e.Attained ∧ e.goal = some goal ∧ ∃ r e', e.run none = .ok (r, e') ∧ r.history.length = 3 ∧
      e.run (some 3) = .ok (r, e') ∧ ∃ r' e'', e.run (some 2) = .ok (r', e'') ∧ r'.verdict = .unknown .roundLimit ∧
        r'.history = r.history.take 2 ∧ (e''.outcome r').derivation.toList <+: (e'.outcome r).derivation.toList := by
  intro goal e
  have h : e.Attained := ⟨_, rfl⟩
  have hgoal : e.goal = some goal := by decide +kernel
  have hlength : (e.pursue goal none).1.history.length = 3 := by decide +kernel
  clear_value e
  obtain ⟨r, e', hrun, -, hmore, hless, -⟩ := limit_truncates h hgoal
  have hr : e.pursue goal none = (r, e') := by
    rw [run_eq hgoal] at hrun
    exact Except.ok.inj hrun
  rw [hr] at hlength
  refine ⟨h, hgoal, r, e', hrun, hlength, hmore 3 ?_, hless 2 ?_⟩
  · rw [hlength]
    rfl
  · rw [hlength]
    decide

end Engine

end Clausal
