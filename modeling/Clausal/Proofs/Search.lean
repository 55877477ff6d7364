import Clausal.Engine.Run
import Clausal.Proofs.Bound
import Clausal.Proofs.Round

/-!
# Searches

* `Advances limit e past`: what a search does next, all cases said once (`advances`);
* `Rounds e₀ laps e`: productive rounds lead from `e₀` to `e`;
* `Ends e₀ limit pause stop laps e`: the ways in which a search from `e₀` stops (`ends_of_search`);
* `AtStage K U e`: the engine is between two rounds of a search.  Productive rounds keep it
  (`AtStage.rounds`), a refutation shows that the empty set is supported, and a round that brings nothing
  new is a fixpoint;
* `search_ne_undecided`: the fuel of a search never runs out, since the coverage grows.
-/

namespace Clausal

namespace Engine

/-! ## The shape of a search -/

/-- What a search does next, whatever its pause is and however much fuel it has. -/
inductive Advances (limit : Option Int) (e : Engine) (past : List Lap) : Prop
  | limit (hlimit : atLimit limit past.length = true) (h : ∀ pause fuel,
      search limit pause (fuel + 1) e past = (.decided (.unknown .roundLimit), e, past))
  | refuted {report : RoundReport} {e' : Engine} {i : Int} (hround : e.round (past.length + 1) = (report, e'))
      (hend : report.ending = .refuted i) (h : ∀ pause fuel,
        search limit pause (fuel + 1) e past = (.decided (.proven i), e', past ++ [⟨report, e'.view⟩]))
  | stalled {report : RoundReport} {e' : Engine} (hround : e.round (past.length + 1) = (report, e'))
      (hend : report.ending = .stalled) (h : ∀ pause fuel, search limit pause (fuel + 1) e past =
        if pause = some ((past.length + 1 : Nat) : Int) then (.paused true, e', past ++ [⟨report, e'.view⟩])
        else (.decided (.unknown .fixpoint), e', past ++ [⟨report, e'.view⟩]))
  | productive {report : RoundReport} {e' : Engine} (hround : e.round (past.length + 1) = (report, e'))
      (hend : report.ending = .productive) (h : ∀ pause fuel, search limit pause (fuel + 1) e past =
        if pause = some ((past.length + 1 : Nat) : Int) then (.paused false, e', past ++ [⟨report, e'.view⟩])
        else search limit pause fuel e' (past ++ [⟨report, e'.view⟩]))

/-- Productive rounds lead from `e₀` to the engine. -/
inductive Rounds (e₀ : Engine) : List Lap → Engine → Prop
  | nil : Rounds e₀ [] e₀
  | snoc {past : List Lap} {e e' : Engine} {report : RoundReport} (h : Rounds e₀ past e)
      (hround : e.round (past.length + 1) = (report, e')) (hend : report.ending = .productive) :
      Rounds e₀ (past ++ [⟨report, e'.view⟩]) e'

/-- How a search from `e₀` stops: at the limit, with the empty clause, with nothing new, or at a pause. -/
inductive Ends (e₀ : Engine) (limit pause : Option Int) : Stop → List Lap → Engine → Prop
  | limit {laps : List Lap} {e : Engine} (h : Rounds e₀ laps e)
      (hlimit : atLimit limit laps.length = true) :
      Ends e₀ limit pause (.decided (.unknown .roundLimit)) laps e
  | refuted {past : List Lap} {e e' : Engine} {report : RoundReport} {i : Int} (h : Rounds e₀ past e)
      (hround : e.round (past.length + 1) = (report, e')) (hend : report.ending = .refuted i) :
      Ends e₀ limit pause (.decided (.proven i)) (past ++ [⟨report, e'.view⟩]) e'
  | stalled {past : List Lap} {e e' : Engine} {report : RoundReport} (h : Rounds e₀ past e)
      (hround : e.round (past.length + 1) = (report, e')) (hend : report.ending = .stalled)
      (hpause : pause ≠ some ((past.length + 1 : Nat) : Int)) :
      Ends e₀ limit pause (.decided (.unknown .fixpoint)) (past ++ [⟨report, e'.view⟩]) e'
  | stalledPause {past : List Lap} {e e' : Engine} {report : RoundReport} (h : Rounds e₀ past e)
      (hround : e.round (past.length + 1) = (report, e')) (hend : report.ending = .stalled)
      (hpause : pause = some ((past.length + 1 : Nat) : Int)) :
      Ends e₀ limit pause (.paused true) (past ++ [⟨report, e'.view⟩]) e'
  | pause {laps : List Lap} {e : Engine} (h : Rounds e₀ laps e)
      (hpause : pause = some (laps.length : Int)) :
      Ends e₀ limit pause (.paused false) laps e

section Shape

variable {e₀ e e' : Engine} {limit pause : Option Int} {fuel : Nat} {past laps : List Lap} {stop : Stop}

theorem advances (limit : Option Int) (e : Engine) (past : List Lap) : Advances limit e past := by
  by_cases hlimit : atLimit limit past.length = true
  · exact .limit hlimit fun pause fuel => by rw [search, if_pos hlimit]
  cases hround : e.round (past.length + 1) with
  | mk report e' =>
    cases hend : report.ending with
    | refuted i =>
      refine .refuted hround hend fun pause fuel => ?_
      simp [search, hlimit, hround, hend]
    | stalled =>
      refine .stalled hround hend fun pause fuel => ?_
      simp [search, hlimit, hround, hend]
    | productive =>
      refine .productive hround hend fun pause fuel => ?_
      simp [search, hlimit, hround, hend]

/-- A search stops in one of these ways, or its fuel is used up. -/
theorem ends_of_search (hr : Rounds e₀ past e)
    (h : search limit pause fuel e past = (stop, e', laps)) :
    Ends e₀ limit pause stop laps e' ∨ stop = .decided .undecided := by
  induction fuel generalizing e past with
  | zero =>
    cases h
    exact .inr rfl
  | succ fuel ih =>
    cases advances limit e past with
    | limit hlimit hs =>
      rw [hs] at h
      cases h
      exact .inl (.limit hr hlimit)
    | refuted hround hend hs =>
      rw [hs] at h
      cases h
      exact .inl (.refuted hr hround hend)
    | stalled hround hend hs =>
      rw [hs] at h
      split at h
      · rename_i hpause
        cases h
        exact .inl (.stalledPause hr hround hend hpause)
      · rename_i hpause
        cases h
        exact .inl (.stalled hr hround hend hpause)
    | productive hround hend hs =>
      have hr' := hr.snoc hround hend
      rw [hs] at h
      split at h
      · rename_i hpause
        cases h
        exact .inl (.pause hr' (by simpa using hpause))
      · exact ih hr' h

theorem Rounds.frame (h : Rounds e₀ laps e) : e.knowledge = e₀.knowledge ∧ e.goal = e₀.goal := by
  induction h with
  | nil => exact ⟨rfl, rfl⟩
  | snoc _ hround _ ih =>
    obtain ⟨hk, hg⟩ := frame_round hround
    exact ⟨hk.trans ih.1, hg.trans ih.2⟩

theorem Ends.frame (h : Ends e₀ limit pause stop laps e) :
    e.knowledge = e₀.knowledge ∧ e.goal = e₀.goal := by
  have hlast : ∀ {past : List Lap} {e e' : Engine} {n : Nat} {report : RoundReport}, Rounds e₀ past e →
      e.round n = (report, e') → e'.knowledge = e₀.knowledge ∧ e'.goal = e₀.goal := by
    intro past e e' n report h hround
    obtain ⟨hk, hg⟩ := frame_round hround
    exact ⟨hk.trans h.frame.1, hg.trans h.frame.2⟩
  cases h with
  | limit h => exact h.frame
  | refuted h hround => exact hlast h hround
  | stalled h hround => exact hlast h hround
  | stalledPause h hround => exact hlast h hround
  | pause h => exact h.frame

theorem Ends.exists_verdict (h : Ends e₀ limit none stop laps e) : ∃ verdict, stop = .decided verdict := by
  cases h with
  | limit => exact ⟨_, rfl⟩
  | refuted => exact ⟨_, rfl⟩
  | stalled => exact ⟨_, rfl⟩
  | stalledPause _ _ _ hpause => cases hpause
  | pause _ hpause => cases hpause

end Shape

/-! ## Stages -/

/-- The engine is between two rounds of a search with the knowledge `K` for a refutation of `U`. -/
def AtStage (K U : Set LiteralSet) (e : Engine) : Prop :=
  ∃ P, Stage K U P e.working.sets e.support.sets

namespace AtStage

variable {K U : Set LiteralSet} {e₀ e e' : Engine} {n : Nat} {report : RoundReport} {i : Int}

theorem antichain (h : e.AtStage K U) : IsAntichain (· ⊆ ·) e.working.sets := by
  obtain ⟨P, hP⟩ := h
  exact hP.antichain

theorem within_support {A : Finset String} (h : e.AtStage K U) (hA : Within A e.working.sets) :
    Within A e.support.sets := by
  obtain ⟨P, hP⟩ := h
  exact fun c hc => hA c (hP.past (hP.support hc))

/-- A round either finds the empty clause, or it goes through all resolvents. -/
theorem round_cases (h : e.AtStage K U) (hround : e.round n = (report, e')) :
    (.empty ∈ resolvents e.working.sets e.support.sets ∧ ∃ i, report.ending = .refuted i) ∨
    (.empty ∉ resolvents e.working.sets e.support.sets ∧
      ∃ new gone, e.Completes new gone report e') := by
  by_cases hempty : .empty ∈ resolvents e.working.sets e.support.sets
  · exact .inl ⟨hempty, refuted_round hround hempty⟩
  · exact .inr ⟨hempty, completes_round hround h.antichain hempty⟩

theorem productive (h : e.AtStage K U) (hround : e.round n = (report, e'))
    (hend : report.ending = .productive) :
    e'.AtStage K U ∧ e'.working.sets = saturate e.working.sets e.support.sets ∧
      (produced e.working.sets e.support.sets).Nonempty := by
  rcases h.round_cases hround with ⟨-, i, hi⟩ | ⟨hempty, new, gone, hc⟩
  · rw [hend] at hi
    cases hi
  by_cases hnew : new.toList = []
  · rw [(hc.stalled hnew).1] at hend
    cases hend
  obtain ⟨P, hP⟩ := h
  have hnext := hP.next hempty
  rw [← hc.working, ← hc.produced, ← (hc.productive hnew).2] at hnext
  refine ⟨⟨_, hnext⟩, hc.working, ?_⟩
  · rw [← hc.produced, Set.nonempty_iff_ne_empty]
    exact fun he => hnew (ClauseTable.sets_eq_empty_iff.1 he)

theorem rounds {laps : List Lap} (h : e₀.AtStage K U) (hr : Rounds e₀ laps e) : e.AtStage K U := by
  induction hr with
  | nil => exact h
  | snoc _ hround hend ih => exact (ih.productive hround hend).1

theorem supported_empty (h : e.AtStage K U) (hround : e.round n = (report, e'))
    (hend : report.ending = .refuted i) : Supported K U .empty := by
  rcases h.round_cases hround with ⟨hempty, -⟩ | ⟨-, new, gone, hc⟩
  · obtain ⟨P, hP⟩ := h
    exact hP.supported_empty hempty
  · by_cases hnew : new.toList = []
    · rw [(hc.stalled hnew).1] at hend
      cases hend
    · rw [(hc.productive hnew).1] at hend
      cases hend

theorem produced_eq_empty (h : e.AtStage K U) (hround : e.round n = (report, e'))
    (hend : report.ending = .stalled) : Clausal.produced e.working.sets e.support.sets = ∅ := by
  rcases h.round_cases hround with ⟨-, i, hi⟩ | ⟨-, new, gone, hc⟩
  · rw [hend] at hi
    cases hi
  · by_cases hnew : new.toList = []
    · rw [← hc.produced, ClauseTable.sets_eq_empty_iff, hnew]
    · rw [(hc.productive hnew).1] at hend
      cases hend

end AtStage

/-! ## The fuel -/

section Fuel

variable {K U : Set LiteralSet} {e : Engine} {limit pause : Option Int} {past : List Lap}

/-- With more fuel than there are patterns left to cover a search comes to an end. -/
theorem search_ne_undecided {A : Finset String} {fuel : Nat} (h : e.AtStage K U)
    (hA : Within A e.working.sets) (hfuel : 3 ^ A.card < fuel + (coverage A e.working.sets).card) :
    (search limit pause fuel e past).1 ≠ .decided .undecided := by
  induction fuel generalizing e past with
  | zero =>
    have := coverage_card_le A e.working.sets
    omega
  | succ fuel ih =>
    rw [search]
    split
    · simp
    generalize hround : e.round (past.length + 1) = result
    obtain ⟨report, e'⟩ := result
    dsimp only
    cases hend : report.ending with
    | refuted i => simp
    | stalled =>
      dsimp only
      split <;> simp
    | productive =>
      dsimp only
      split
      · simp
      · -- the fuel goes down by one and the coverage up by at least one
        obtain ⟨hstage, hworking, r, hr⟩ := h.productive hround hend
        have hwithin : Within A (saturate e.working.sets e.support.sets) :=
          hA.saturate (h.within_support hA)
        have hgrows := Finset.card_lt_card (coverage_ssubset hwithin hr)
        refine ih hstage (hworking ▸ hwithin) ?_
        rw [hworking]
        omega

theorem within_atoms (e : Engine) :
    Within (atoms (e.working.toList ++ e.support.toList)).toFinset e.working.sets := by
  rintro _ ⟨c, hc, rfl⟩ l hl
  rw [List.mem_toFinset, atoms, List.mem_eraseDups, List.mem_flatMap]
  exact ⟨c, List.mem_append_left _ hc, List.mem_map_of_mem hl⟩

/-- **The bound on the rounds is enough.** -/
theorem proceed_ne_undecided (h : e.AtStage K U) :
    (e.proceed limit pause past).1 ≠ .decided .undecided := by
  refine search_ne_undecided h (within_atoms e) ?_
  have hcard := List.toFinset_card_le (atoms (e.working.toList ++ e.support.toList))
  have hpow := Nat.pow_le_pow_right (n := 3) (by omega) hcard
  have hbound : e.roundBound =
      3 ^ (atoms (e.working.toList ++ e.support.toList)).length + 1 := rfl
  omega

/-- **A search stops**, in one of the ways that there are. -/
theorem ends_of_proceed {e₀ e' : Engine} {laps : List Lap} {stop : Stop} (h : e.AtStage K U)
    (hr : Rounds e₀ past e) (hp : e.proceed limit pause past = (stop, e', laps)) :
    Ends e₀ limit pause stop laps e' := by
  refine (ends_of_search hr hp).resolve_right fun hstop => ?_
  have hne : (e.proceed limit pause past).1 ≠ .decided .undecided := proceed_ne_undecided h
  rw [hp] at hne
  exact hne hstop

end Fuel

end Engine

end Clausal
