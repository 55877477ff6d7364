import Clausal.Proofs.Bookkeeping
import Clausal.Proofs.Refinement
import Mathlib.Order.CompletePartialOrder

/-!
# The ledger of a run

The history of a run tells for each round the sizes of the support and of the working set, and what the round produced
and removed.  The sizes are taken when the removed clauses are out and the new ones not yet in, or, in the round that
finds the empty clause, before either.  All the same the entries balance: what one round produces is the support of the
next, and the working set grows by it and shrinks by what the next round removes.

* `Engine.Books e n report e'`: the entry of a round from `e` to `e'` balances; every round does (`Engine.books_round`);
* `RoundEntry.Balances`: the entries of a history balance from one to the next;
* `Engine.Ends.balances`: those of a search do.
-/

namespace Clausal

/-! ## Sizes of tables -/

namespace ClauseTable

variable {t u : ClauseTable}

/-- Each clause that is taken out was in. -/
theorem size_foldl_erase (h : u.sets ⊆ t.sets) :
    (u.toList.foldl (fun t c => t.erase c.literals) t).size + u.size = t.size := by
  rw [← ncard_sets, ← ncard_sets u, ← ncard_sets t, sets_foldl_erase]
  exact Set.ncard_sdiff_add_ncard_of_subset h t.finite_sets

/-- Each clause that is put in is new. -/
theorem size_putAll (h : Disjoint t.sets u.sets) : (t.putAll u.toList).size = t.size + u.size := by
  rw [← ncard_sets, ← ncard_sets t, ← ncard_sets u, sets_putAll]
  exact Set.ncard_union_eq h t.finite_sets u.finite_sets

end ClauseTable

/-! ## One round -/

namespace Sweep

variable {e : Engine} {Q : Set LiteralSet} {w : Sweep}

/-- The working set without what is doomed. -/
def spared (w : Sweep) : ClauseTable := w.doomed.toList.foldl (fun t c => t.erase c.literals) w.engine.working

/-- The candidates that are not in it. -/
def fresh (w : Sweep) : ClauseTable := w.candidates.filter fun r => !w.spared.contains r.literals

theorem sets_fresh (w : Sweep) : w.fresh.sets = w.candidates.sets \ w.spared.sets :=
  ClauseTable.sets_filter_not_contains

theorem size_putAll_fresh (w : Sweep) : (w.spared.putAll w.fresh.toList).size = w.spared.size + w.fresh.size := by
  refine ClauseTable.size_putAll ?_
  rw [sets_fresh]
  exact Set.disjoint_sdiff_right

/-- What is doomed was in the working set. -/
theorem Tracks.size_spared (h : w.Tracks e Q) : w.spared.size + w.doomed.size = e.working.size := by
  rw [← h.agrees.working]
  refine ClauseTable.size_foldl_erase fun c hc => ?_
  rw [h.doomed] at hc
  rw [h.agrees.working]
  exact hc.1

/-- **Without a new clause nothing is doomed.**  A candidate would be new, since it is not in the working set, and only
what a candidate subsumes is doomed. -/
theorem Tracks.doomed_eq_nil (h : w.Tracks e Q) (hnone : w.fresh.toList = []) : w.doomed.toList = [] := by
  have hcandidates : w.candidates.sets = ∅ := by
    refine Set.eq_empty_iff_forall_notMem.2 fun c hc => ?_
    have hfresh : c ∈ w.fresh.sets := by
      rw [sets_fresh]
      refine ⟨hc, fun hspared => ?_⟩
      rw [h.candidates] at hc
      rw [spared, ClauseTable.sets_foldl_erase, h.agrees.working] at hspared
      exact (minimals_subset hc).2 (covered_of_mem hspared.1)
    rw [ClauseTable.sets_eq_empty_iff.2 hnone] at hfresh
    exact hfresh
  refine ClauseTable.sets_eq_empty_iff.1 (Set.eq_empty_iff_forall_notMem.2 fun c hc => ?_)
  rw [h.doomed] at hc
  obtain ⟨d, hd, -⟩ := covered_minimals.2 hc.2
  rw [← h.candidates, hcandidates] at hd
  exact hd

end Sweep

namespace Engine

variable {e e' : Engine} {n : Nat} {report : RoundReport}

/-- The entry of the `n`-th round, which leads from `e` to `e'`, balances. -/
structure Books (e : Engine) (n : Nat) (report : RoundReport) (e' : Engine) : Prop where
  round : report.entry.round = n
  support : report.entry.support = e.support.size
  working : report.entry.working + report.entry.removed.length = e.working.size
  refuted : ∀ i, report.ending = .refuted i → report.entry.produced = ["NIL"] ∧ report.entry.removed = []
  stalled : report.ending = .stalled → report.entry.produced = [] ∧ report.entry.removed = []
  productive : report.ending = .productive → report.entry.produced ≠ [] ∧
    e'.support.size = report.entry.produced.length ∧
    (e'.working.size : Int) = report.entry.working + report.entry.produced.length

/-- **Every round balances.** -/
theorem books_round (h : e.round n = (report, e')) : e.Books n report e' := by
  have hall := Sweep.finds_all e
  unfold Engine.round at h
  cases hs : Sweep.all e with
  | error found =>
    rw [hs] at hall h
    obtain ⟨-, hagrees⟩ := hall
    cases h
    refine ⟨rfl, ?_, ?_, fun i _ => ⟨rfl, rfl⟩, fun hend => ?_, fun hend => ?_⟩
    · exact congrArg Int.ofNat (ClauseTable.size_congr hagrees.support)
    · show (found.engine.working.size : Int) + 0 = _
      rw [hagrees.working, add_zero]
    · cases hend
    · cases hend
  | ok w =>
    rw [hs] at hall h
    obtain ⟨ht, -⟩ := hall
    have hsupport : (w.engine.support.size : Int) = e.support.size :=
      congrArg Int.ofNat (ClauseTable.size_congr ht.agrees.support)
    have hworking : (w.spared.size : Int) + (w.doomed.toList.map Clause.name).length = e.working.size := by
      rw [List.length_map, ← ht.size_spared]
      rfl
    by_cases hnone : w.fresh.isEmpty = true
    · have hnil : w.fresh.toList = [] := List.isEmpty_iff.1 hnone
      dsimp only at h
      rw [← Sweep.spared, ← Sweep.fresh, if_pos hnone, if_pos hnone] at h
      cases h
      refine ⟨rfl, hsupport, hworking, fun i hend => ?_, fun _ => ⟨?_, ?_⟩, fun hend => ?_⟩
      · cases hend
      · exact List.map_eq_nil_iff.2 hnil
      · exact List.map_eq_nil_iff.2 (ht.doomed_eq_nil hnil)
      · cases hend
    · dsimp only at h
      rw [← Sweep.spared, ← Sweep.fresh, if_neg hnone, if_neg hnone] at h
      cases h
      refine ⟨rfl, hsupport, hworking, fun i hend => ?_, fun hend => ?_, fun _ => ⟨fun hnil => hnone ?_, ?_, ?_⟩⟩
      · cases hend
      · cases hend
      · exact List.isEmpty_iff.2 (List.map_eq_nil_iff.1 hnil)
      · exact (List.length_map _).symm
      · show ((w.spared.putAll w.fresh.toList).size : Int) = w.spared.size + (w.fresh.toList.map Clause.name).length
        rw [w.size_putAll_fresh, List.length_map]
        rfl

end Engine

/-! ## Searches -/

/-- The entries of a history balance, for a run with the verdict that begins with so many clauses in its support and in
its working set: they are numbered from 1 on, the first one tells the sizes at the beginning, and each one carries over
to the next.  The last one of a proof tells of the empty clause, and the last one before a fixpoint of nothing. -/
structure RoundEntry.Balances (support working : Nat) (verdict : Verdict) (history : List RoundEntry) : Prop where
  numbered : ∀ (i : Nat) (entry : RoundEntry), history[i]? = some entry → entry.round = i + 1
  first : ∀ entry : RoundEntry, history[0]? = some entry →
    entry.support = support ∧ entry.working + entry.removed.length = working
  next : ∀ (i : Nat) (entry entry' : RoundEntry), history[i]? = some entry → history[i + 1]? = some entry' →
    entry.produced ≠ [] ∧ entry'.support = entry.produced.length ∧
    entry'.working = entry.working + entry.produced.length - entry'.removed.length
  proven : ∀ i, verdict = .proven i → ∀ entry ∈ history.getLast?, entry.produced = ["NIL"] ∧ entry.removed = []
  fixpoint : verdict = .unknown .fixpoint → ∀ entry ∈ history.getLast?, entry.produced = [] ∧ entry.removed = []

namespace Engine

section Search

variable {e₀ e e' : Engine} {limit : Option Int} {verdict : Verdict} {laps past : List Lap} {lap : Lap} {i : Nat}

theorem Rounds.last (h : Rounds e₀ (past ++ [lap]) e') : ∃ e, Rounds e₀ past e ∧
    e.round (past.length + 1) = (lap.report, e') ∧ lap.report.ending = .productive := by
  generalize hlaps : past ++ [lap] = laps at h
  cases h with
  | nil => simp at hlaps
  | snoc h hround hend =>
    obtain ⟨rfl, hlap⟩ := List.append_inj' hlaps rfl
    obtain rfl := List.singleton_inj.1 hlap
    exact ⟨_, h, hround, hend⟩

/-- Each round of a search balances. -/
theorem Ends.books (h : Ends e₀ limit none (.decided verdict) laps e) (hlap : laps[i]? = some lap) :
    ∃ e₁ e₂, Rounds e₀ (laps.take i) e₁ ∧ e₁.Books (i + 1) lap.report e₂ ∧
      Continues verdict (laps.drop (i + 1)) lap.report.ending := by
  obtain ⟨hi, rfl⟩ := List.getElem?_eq_some_iff.1 hlap
  have hsplit : laps = laps.take i ++ laps[i] :: laps.drop (i + 1) := by simp
  obtain ⟨e₁, e₂, hrounds, hround, -, hcontinues⟩ := h.split hsplit
  rw [List.length_take, Nat.min_eq_left hi.le] at hround
  exact ⟨e₁, e₂, hrounds, books_round hround, hcontinues⟩

/-- **A search keeps a ledger that balances.** -/
theorem Ends.balances (h : Ends e₀ limit none (.decided verdict) laps e) :
    RoundEntry.Balances e₀.support.size e₀.working.size verdict (laps.map (·.report.entry)) := by
  have hlap : ∀ (i : Nat) (entry : RoundEntry), (laps.map (·.report.entry))[i]? = some entry →
      ∃ lap : Lap, laps[i]? = some lap ∧ lap.report.entry = entry := by
    intro i entry hentry
    simpa using hentry
  have hlast : ∀ entry ∈ (laps.map (·.report.entry)).getLast?, ∃ (lap : Lap) (n : Nat) (e₁ e₂ : Engine),
      lap.report.entry = entry ∧ e₁.Books n lap.report e₂ ∧ Continues verdict [] lap.report.ending := by
    intro entry hentry
    rw [Option.mem_def, List.getLast?_eq_getElem?, List.length_map] at hentry
    obtain ⟨lap, hlap, rfl⟩ := hlap _ entry hentry
    obtain ⟨e₁, e₂, -, hbooks, hcontinues⟩ := h.books hlap
    rw [List.drop_eq_nil_of_le (by omega)] at hcontinues
    exact ⟨lap, _, e₁, e₂, rfl, hbooks, hcontinues⟩
  refine ⟨fun i entry hentry => ?_, fun entry hentry => ?_, fun i entry entry' hentry hentry' => ?_,
    fun i hverdict entry hentry => ?_, fun hverdict entry hentry => ?_⟩
  · obtain ⟨lap, hlap, rfl⟩ := hlap i entry hentry
    obtain ⟨e₁, e₂, -, hbooks, -⟩ := h.books hlap
    exact hbooks.round
  · obtain ⟨lap, hlap, rfl⟩ := hlap 0 entry hentry
    obtain ⟨e₁, e₂, hrounds, hbooks, -⟩ := h.books hlap
    rw [List.take_zero] at hrounds
    obtain rfl : e₁ = e₀ := by
      generalize hpast : ([] : List Lap) = past at hrounds
      cases hrounds with
      | nil => rfl
      | snoc => simp at hpast
    exact ⟨hbooks.support, hbooks.working⟩
  · obtain ⟨lap, hlap₁, rfl⟩ := hlap i entry hentry
    obtain ⟨lap', hlap₂, rfl⟩ := hlap (i + 1) entry' hentry'
    obtain ⟨e₁, e₂, hrounds, hbooks', -⟩ := h.books hlap₂
    rw [List.take_add_one, hlap₁] at hrounds
    obtain ⟨e₃, -, hround, hend⟩ := hrounds.last
    obtain ⟨hne, hsupport, hworking⟩ := (books_round hround).productive hend
    have hworking' := hbooks'.working
    refine ⟨hne, ?_, ?_⟩
    · rw [hbooks'.support, hsupport]
    · omega
  · obtain ⟨lap, n, e₁, e₂, rfl, hbooks, hcontinues⟩ := hlast entry hentry
    generalize hend : lap.report.ending = ending at hcontinues
    cases hcontinues with
    | productive hlimit => cases hverdict.symm.trans (hlimit rfl)
    | refuted => exact hbooks.refuted _ hend
    | stalled _ hfixpoint => cases hverdict.symm.trans hfixpoint
  · obtain ⟨lap, n, e₁, e₂, rfl, hbooks, hcontinues⟩ := hlast entry hentry
    generalize hend : lap.report.ending = ending at hcontinues
    cases hcontinues with
    | productive hlimit => cases hverdict.symm.trans (hlimit rfl)
    | refuted _ hproven => cases hverdict.symm.trans hproven
    | stalled => exact hbooks.stalled hend

end Search

/-! ## Runs -/

section Run

variable {e : Engine} {goal : Clause}

/-- There is a unit for each literal of the goal. -/
theorem Tidy.size_support (h : e.Tidy) (hgoal : e.goal = some goal) :
    e.support.size = goal.literals.toList.length := by
  rcases h.support with ⟨hnone, -⟩ | ⟨goal', hgoal', hkeys⟩
  · cases hgoal.symm.trans hnone
  · obtain rfl := Option.some.inj (hgoal.symm.trans hgoal')
    have hlength := congrArg List.length hkeys
    rw [List.length_map] at hlength
    rw [← hlength]
    exact (List.length_map _).symm

/-- **The history of every run balances.**  Its first entry tells of a unit for each literal of the goal, and of the
knowledge without what a unit strictly subsumes together with the units. -/
theorem history_balances (h : e.Attained) (hgoal : e.goal = some goal) (limit : Option Int) :
    ∃ r e', e.run limit = .ok (r, e') ∧
      RoundEntry.Balances goal.literals.toList.length
        (initialWorking e.knowledge.sets (negation goal.literals)).ncard r.verdict r.history := by
  have hrun := run_eq hgoal limit
  generalize e.pursue goal limit = result at hrun
  obtain ⟨r, e'⟩ := result
  refine ⟨r, e', hrun, ?_⟩
  have hsettled := h.tidy.settled
  obtain ⟨-, hruns, -⟩ := hsettled.run hrun
  cases hruns with
  | conflict _ hlaps =>
    rw [Run.history, hlaps]
    constructor <;> simp
  | search _ hends =>
    have hsupport : e.start.2.support.size = goal.literals.toList.length := by
      rw [ClauseTable.size_congr (starts_start e).support, h.tidy.size_support hgoal]
    have hworking := e.start.2.working.ncard_sets
    rw [hsettled.sets_working_start hgoal] at hworking
    rw [← hsupport, hworking]
    exact hends.balances

/-- The first round removes a clause, and the second one finds the empty clause. -/
theorem history_balances_disjunction :
    let goal : Clause := { literals := .singleton ⟨"q", false⟩ }
    let e := ((({} : Engine).add "p v q").2.add "~p").2.aim goal
    e.Attained ∧ e.goal = some goal ∧ ∃ r e', e.run none = .ok (r, e') ∧ r.verdict = .proven 4 ∧
      r.history = [⟨1, 1, 2, ["p"], ["p v q"]⟩, ⟨2, 1, 3, ["NIL"], []⟩] ∧
      RoundEntry.Balances 1 (initialWorking e.knowledge.sets (negation goal.literals)).ncard r.verdict r.history := by
  intro goal e
  have h : e.Attained := ⟨[.add "p v q", .add "~p", .goal "q"], rfl⟩
  have hgoal : e.goal = some goal := rfl
  have hproven : (e.pursue goal none).1.verdict = .proven 4 := by decide +kernel
  have hhistory : (e.pursue goal none).1.history = [⟨1, 1, 2, ["p"], ["p v q"]⟩, ⟨2, 1, 3, ["NIL"], []⟩] := by
    decide +kernel
  have hrun := run_eq hgoal none
  clear_value e
  generalize e.pursue goal none = result at hproven hhistory hrun
  obtain ⟨r, e', hok, hbalances⟩ := history_balances h hgoal none
  obtain rfl := Except.ok.inj (hrun.symm.trans hok)
  exact ⟨h, hgoal, r, e', hok, hproven, hhistory, hbalances⟩

end Run

end Engine

end Clausal
