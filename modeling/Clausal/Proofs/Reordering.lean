import Clausal.Proofs.Likeness

/-!
# Knowledge bases in another order

The order of the knowledge base decides which resolvents are found first, which candidates take the place of which and
where the search for the empty clause stops.  None of it is seen afterwards, but for the order of the names in the
history: what a round brings and removes depends on the literal sets of the working set and the support alone.

* `Engine.SameSets`: the engines have the same sets in their working sets and in their supports;
* `Engine.lockstep_sameSets`: their rounds go the same way;
* `Engine.runs_alike_in_any_order`: and so do whole runs.
-/

namespace Clausal

/-! ## Tables with the same sets -/

namespace ClauseTable

variable {t u : ClauseTable}

theorem perm_keys (h : t.sets = u.sets) : t.keys.Perm u.keys := by
  refine (List.perm_ext_iff_of_nodup t.nodup_keys u.nodup_keys).2 fun s => ?_
  rw [mem_keys, mem_keys, h]

theorem perm_names (h : t.sets = u.sets) : (t.toList.map Clause.name).Perm (u.toList.map Clause.name) := by
  have hnames : ∀ t : ClauseTable, t.toList.map Clause.name = t.keys.map LiteralSet.name := by
    intro t
    simp [keys, Clause.name]
  rw [hnames, hnames]
  exact (perm_keys h).map _

end ClauseTable

/-- The entries tell the same of a round, but for the order in which they name the clauses. -/
structure RoundEntry.Permutes (x y : RoundEntry) : Prop where
  round : x.round = y.round
  support : x.support = y.support
  working : x.working = y.working
  produced : x.produced.Perm y.produced
  removed : x.removed.Perm y.removed

namespace Engine

variable {e e' : Engine}

/-! ## Rounds -/

/-- The engines have the same sets in their working sets and in their supports. -/
structure SameSets (e e' : Engine) : Prop where
  working : e.working.sets = e'.working.sets
  support : e.support.sets = e'.support.sets

theorem SameSets.permutes_entry (h : e.SameSets e') (n : Nat) {produced produced' removed removed' : List Clause}
    (hproduced : (produced.map Clause.name).Perm (produced'.map Clause.name))
    (hremoved : (removed.map Clause.name).Perm (removed'.map Clause.name)) :
    (e.entry n produced removed).Permutes (e'.entry n produced' removed') where
  round := rfl
  support := congrArg Int.ofNat (ClauseTable.size_congr h.support)
  working := congrArg Int.ofNat (ClauseTable.size_congr h.working)
  produced := hproduced
  removed := hremoved

/-- **The order makes no difference to a round**: it stops at the empty clause in both engines or in none, and else the
candidates and the doomed clauses have the same sets when all resolvents are through. -/
theorem lockstep_sameSets : Lockstep SameSets RoundEntry.Permutes fun _ _ => True := by
  intro e e' n h
  have hall := Sweep.finds_all e
  have hall' := Sweep.finds_all e'
  rw [← h.working, ← h.support] at hall'
  unfold Engine.round
  generalize Sweep.all e = x at hall
  generalize Sweep.all e' = y at hall'
  cases x with
  | error found =>
    cases y with
    | ok v => exact absurd hall.1 hall'.2
    | error found' =>
      obtain ⟨-, hagrees⟩ := hall
      obtain ⟨-, hagrees'⟩ := hall'
      have hengine : found.engine.SameSets found'.engine := by
        refine ⟨?_, ?_⟩
        · rw [hagrees.working, hagrees'.working, h.working]
        · rw [hagrees.support, hagrees'.support, h.support]
      exact ⟨hengine.permutes_entry n (.refl _) (.refl _), .refuted trivial, hengine⟩
  | ok w =>
    cases y with
    | error found' => exact absurd hall'.1 hall.2
    | ok v =>
      obtain ⟨htracks, -⟩ := hall
      obtain ⟨htracks', -⟩ := hall'
      have hcandidates : w.candidates.sets = v.candidates.sets := by
        rw [htracks.candidates, htracks'.candidates, h.working]
      have hdoomed : w.doomed.sets = v.doomed.sets := by
        rw [htracks.doomed, htracks'.doomed, h.working]
      have hsupport : w.engine.support.sets = v.engine.support.sets := by
        rw [htracks.agrees.support, htracks'.agrees.support, h.support]
      have hworking : (w.doomed.toList.foldl (fun t c => t.erase c.literals) w.engine.working).sets =
          (v.doomed.toList.foldl (fun t c => t.erase c.literals) v.engine.working).sets := by
        rw [ClauseTable.sets_foldl_erase, ClauseTable.sets_foldl_erase, htracks.agrees.working,
          htracks'.agrees.working, h.working]
        exact congrArg _ hdoomed
      dsimp only
      generalize w.doomed.toList.foldl (fun t c => t.erase c.literals) w.engine.working = working at hworking
      generalize v.doomed.toList.foldl (fun t c => t.erase c.literals) v.engine.working = working' at hworking
      have hnew : (w.candidates.filter fun r => !working.contains r.literals).sets =
          (v.candidates.filter fun r => !working'.contains r.literals).sets := by
        rw [ClauseTable.sets_filter_not_contains, ClauseTable.sets_filter_not_contains, hcandidates, hworking]
      generalize w.candidates.filter (fun r => !working.contains r.literals) = new at hnew
      generalize v.candidates.filter (fun r => !working'.contains r.literals) = new' at hnew
      have hengine : SameSets { w.engine with working } { v.engine with working := working' } := ⟨hworking, hsupport⟩
      have hentry := hengine.permutes_entry n (ClauseTable.perm_names hnew) (ClauseTable.perm_names hdoomed)
      have hempty : new.isEmpty = new'.isEmpty := by
        rw [Bool.eq_iff_iff, ClauseTable.isEmpty_iff, ClauseTable.isEmpty_iff, hnew]
      rw [hempty]
      split
      · exact ⟨hentry, .stalled, hengine⟩
      · refine ⟨hentry, .productive, ?_, hnew⟩
        show (working.putAll new.toList).sets = (working'.putAll new'.toList).sets
        rw [ClauseTable.sets_putAll, ClauseTable.sets_putAll, hworking]
        exact congrArg _ hnew

/-! ## Runs -/

theorem Settled.sameSets_start (h : e.Settled) (h' : e'.Settled) {goal goal' : Clause}
    (hsets : e.knowledge.sets = e'.knowledge.sets) (hgoal : e.goal = some goal) (hgoal' : e'.goal = some goal')
    (hliterals : goal.literals = goal'.literals) : e.start.2.SameSets e'.start.2 := by
  refine ⟨?_, ?_⟩
  · rw [h.sets_working_start hgoal, h'.sets_working_start hgoal', hsets, hliterals]
  · rw [h.sets_support_start hgoal, h'.sets_support_start hgoal', hliterals]

theorem findConflict_congr (hsets : e.knowledge.sets = e'.knowledge.sets) :
    findConflict [] e.start.1 = none ↔ findConflict [] e'.start.1 = none := by
  rw [findConflict_eq_none_iff, findConflict_eq_none_iff, (starts_start e).copies, (starts_start e').copies, hsets]

theorem SameSets.proceed (h : e.SameSets e') (limit : Option Int) :
    (e.proceed limit none []).1.Matches (fun _ _ => True) (e'.proceed limit none []).1 ∧
    List.Forall₂ RoundEntry.Permutes (entries (e.proceed limit none []).2.2)
      (entries (e'.proceed limit none []).2.2) := by
  have hpast : List.Forall₂ RoundEntry.Permutes (entries []) (entries []) := .nil
  obtain ⟨hstop, -, hentries⟩ := lockstep_sameSets.search h limit none e.roundBound hpast
  unfold Engine.proceed
  rw [← roundBound_congr h.working h.support]
  exact ⟨hstop, hentries⟩

/-- Runs from the same sets: either both end before the first round, or they go on together. -/
theorem Settled.permutes_pursue (h : e.Settled) (h' : e'.Settled) {goal goal' : Clause} {limit : Option Int}
    {r r' : Run} {e₁ e₁' : Engine} (hsets : e.knowledge.sets = e'.knowledge.sets) (hgoal : e.goal = some goal)
    (hgoal' : e'.goal = some goal') (hliterals : goal.literals = goal'.literals)
    (hrun : e.pursue goal limit = (r, e₁)) (hrun' : e'.pursue goal' limit = (r', e₁')) :
    r.verdict.Matches (fun _ _ => True) r'.verdict ∧ List.Forall₂ RoundEntry.Permutes r.history r'.history := by
  have hconflict := findConflict_congr hsets
  cases hfind : findConflict [] e.start.1 with
  | some pair =>
    cases hfind' : findConflict [] e'.start.1 with
    | none =>
      rw [hconflict.2 hfind'] at hfind
      cases hfind
    | some pair' =>
      rw [pursue_of_conflict hfind] at hrun
      rw [pursue_of_conflict hfind'] at hrun'
      cases hrun
      cases hrun'
      exact ⟨.proven trivial, .nil⟩
  | none =>
    obtain ⟨verdict, hverdict⟩ := exists_verdict_proceed e.start.2 limit
    obtain ⟨verdict', hverdict'⟩ := exists_verdict_proceed e'.start.2 limit
    obtain ⟨hstop, hentries⟩ := (h.sameSets_start h' hsets hgoal hgoal' hliterals).proceed limit
    rw [pursue_of_search hfind hverdict] at hrun
    rw [pursue_of_search (hconflict.1 hfind) hverdict'] at hrun'
    cases hrun
    cases hrun'
    rw [hverdict, hverdict'] at hstop
    cases hstop with
    | decided hmatches => exact ⟨hmatches, hentries⟩

/-- **The verdict does not depend on the order of the knowledge base.**  Whether it is consistent or not, two engines
that know the same sets, in any order and under any numbers, come to the same verdict on the same goal, after the same
number of rounds, and each of the rounds brings and removes the same in both. -/
theorem runs_alike_in_any_order {goal goal' : Clause} (h : e.Attained) (h' : e'.Attained)
    (hsets : e.knowledge.sets = e'.knowledge.sets) (hgoal : e.goal = some goal) (hgoal' : e'.goal = some goal')
    (hliterals : goal.literals = goal'.literals) (limit : Option Int) :
    ∃ r e₁ r' e₁', e.run limit = .ok (r, e₁) ∧ e'.run limit = .ok (r', e₁') ∧
      ((∃ i j, r.verdict = .proven i ∧ r'.verdict = .proven j) ∨
        ∃ reason, r.verdict = .unknown reason ∧ r'.verdict = .unknown reason) ∧
      List.Forall₂ RoundEntry.Permutes r.history r'.history := by
  have hrun := run_eq hgoal limit
  have hrun' := run_eq hgoal' limit
  cases hpursue : e.pursue goal limit with
  | mk r e₁ =>
    cases hpursue' : e'.pursue goal' limit with
    | mk r' e₁' =>
      rw [hpursue] at hrun
      rw [hpursue'] at hrun'
      obtain ⟨hverdict, hhistory⟩ :=
        h.tidy.settled.permutes_pursue h'.tidy.settled hsets hgoal hgoal' hliterals hpursue hpursue'
      refine ⟨r, e₁, r', e₁', hrun, hrun', ?_, hhistory⟩
      have hdecided := (h.tidy.settled.run hrun).2.1.ne_undecided
      revert hdecided hverdict
      generalize r.verdict = verdict
      generalize r'.verdict = verdict'
      rintro (_ | reason | _) hdecided
      · exact .inl ⟨_, _, rfl, rfl⟩
      · exact .inr ⟨reason, rfl, rfl⟩
      · exact absurd rfl hdecided

theorem runs_alike_in_any_order_reversed :
    let e := (Step.performAll [.add "p v q", .add "~p v r", .add "~q v r", .goal "r"] {}).2.engine
    let e' := (Step.performAll
      [.add "~q v r", .add "s", .remove "s", .add "~p v r", .add "p v q", .goal "r"] {}).2.engine
    e.Attained ∧ e'.Attained ∧ e.knowledge.keys = e'.knowledge.keys.reverse ∧ e.knowledge.ids = [1, 2, 3] ∧
      e'.knowledge.ids = [1, 3, 4] ∧ ∃ r e₁ r' e₁', e.run none = .ok (r, e₁) ∧ e'.run none = .ok (r', e₁') ∧
        ((∃ i j, r.verdict = .proven i ∧ r'.verdict = .proven j) ∨
          ∃ reason, r.verdict = .unknown reason ∧ r'.verdict = .unknown reason) ∧
        List.Forall₂ RoundEntry.Permutes r.history r'.history := by
  intro e e'
  have h : e.Attained := ⟨_, rfl⟩
  have h' : e'.Attained := ⟨_, rfl⟩
  have hkeys : e.knowledge.keys = e'.knowledge.keys.reverse := by decide +kernel
  have hids : e.knowledge.ids = [1, 2, 3] := by decide +kernel
  have hids' : e'.knowledge.ids = [1, 3, 4] := by decide +kernel
  have hgoal : e.goal = some { literals := .singleton ⟨"r", false⟩ } := by decide +kernel
  have hgoal' : e'.goal = some { literals := .singleton ⟨"r", false⟩ } := by decide +kernel
  clear_value e e'
  have hsets : e.knowledge.sets = e'.knowledge.sets := by
    ext s
    rw [← ClauseTable.mem_keys, ← ClauseTable.mem_keys, hkeys, List.mem_reverse]
  exact ⟨h, h', hkeys, hids, hids', runs_alike_in_any_order h h' hsets hgoal hgoal' rfl none⟩

end Engine

end Clausal
