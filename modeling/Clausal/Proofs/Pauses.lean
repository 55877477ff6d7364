import Clausal.Proofs.Search
import Clausal.Proofs.Walk
import Clausal.Session.Basic

/-!
# Searches that halt and go on

A search that halts after the rounds of an agenda, and goes on from where it stood, is the search that does not halt.

* `Engine.search_add_fuel`: more fuel than a search needs makes no difference;
* `Engine.Resumes limit e₀ e past`: the search from `e₀` has come to `e` after the rounds `past`.  A pause leads from
  one such place to another (`Resumes.halt`), and where the search is over from one of them, it is over from `e₀`
  (`Resumes.proceed`);
* `Engine.completed_search`: which rounds are over when a search comes to its verdict before a pause;
* `Session.pairwise_agenda`, `Session.mem_agenda`: the rounds of an agenda.
-/

namespace Clausal

namespace Engine

variable {e e₀ e' : Engine} {limit pause : Option Int} {fuel : Nat} {past laps : List Lap} {stop : Stop}
  {verdict : Verdict}

/-! ## Going on -/

/-- What is not decided for lack of fuel is decided in the same way with more of it. -/
theorem search_add_fuel (hs : search limit pause fuel e past = (stop, e', laps)) (hne : stop ≠ .decided .undecided)
    (more : Nat) : search limit pause (fuel + more) e past = (stop, e', laps) := by
  induction fuel generalizing e past with
  | zero =>
    cases hs
    exact absurd rfl hne
  | succ fuel ih =>
    rw [Nat.succ_add]
    cases advances limit e past with
    | limit _ hnext | refuted _ _ hnext | stalled _ _ hnext =>
      rw [hnext] at hs ⊢
      exact hs
    | productive _ _ hnext =>
      rw [hnext] at hs ⊢
      split
      · rename_i hpause
        rwa [if_pos hpause] at hs
      · rename_i hpause
        rw [if_neg hpause] at hs
        exact ih hs

/-- The verdict of a search that is over, also if it halts. -/
def Stop.verdict? : Stop → Option Verdict
  | .decided verdict => some verdict
  | .paused true => some (.unknown .fixpoint)
  | .paused false => none

/-- A search that is over has the same verdict without the pause. -/
theorem search_of_verdict (hs : search limit pause fuel e past = (stop, e', laps))
    (hverdict : stop.verdict? = some verdict) : search limit none fuel e past = (.decided verdict, e', laps) := by
  induction fuel generalizing e past with
  | zero =>
    cases hs
    cases hverdict
    rfl
  | succ fuel ih =>
    cases advances limit e past with
    | limit _ hnext | refuted _ _ hnext =>
      rw [hnext] at hs ⊢
      cases hs
      cases hverdict
      rfl
    | stalled _ _ hnext =>
      rw [hnext] at hs ⊢
      rw [if_neg (by simp)]
      split at hs <;> cases hs <;> cases hverdict <;> rfl
    | productive _ _ hnext =>
      rw [hnext] at hs ⊢
      rw [if_neg (by simp)]
      split at hs
      · cases hs
        cases hverdict
      · exact ih hs

/-- The search from `e₀` has come to `e` after the rounds `past`. -/
def Resumes (limit : Option Int) (e₀ e : Engine) (past : List Lap) : Prop :=
  ∃ spent, ∀ more, search limit none (spent + more) e₀ [] = search limit none more e past

theorem Resumes.start (limit : Option Int) (e₀ : Engine) : Resumes limit e₀ e₀ [] :=
  ⟨0, fun more => by rw [Nat.zero_add]⟩

/-- A pause does not lead astray. -/
theorem Resumes.halt (h : Resumes limit e₀ e past)
    (hs : search limit pause fuel e past = (.paused false, e', laps)) : Resumes limit e₀ e' laps := by
  induction fuel generalizing e past with
  | zero => cases hs
  | succ fuel ih =>
    cases advances limit e past with
    | limit _ hnext | refuted _ _ hnext =>
      rw [hnext] at hs
      cases hs
    | stalled _ _ hnext =>
      rw [hnext] at hs
      split at hs <;> cases hs
    | @productive report e₁ _ _ hnext =>
      have hresumes : Resumes limit e₀ e₁ (past ++ [⟨report, e₁.view⟩]) := by
        obtain ⟨spent, hspent⟩ := h
        refine ⟨spent + 1, fun more => ?_⟩
        rw [Nat.add_right_comm, Nat.add_assoc, hspent, hnext, if_neg (by simp)]
      rw [hnext] at hs
      split at hs
      · cases hs
        exact hresumes
      · exact ih hresumes hs

/-- Where a search halts is where it was told to. -/
theorem Ends.pause_eq {stalled : Bool} (h : Ends e₀ limit pause (.paused stalled) laps e) :
    pause = some (laps.length : Int) := by
  cases h with
  | stalledPause _ _ _ hpause => simpa using hpause
  | pause _ hpause => exact hpause

/-- **Where the search has come to, it ends as it would have without a pause.** -/
theorem Resumes.proceed {K U : Set LiteralSet} (h : Resumes limit e₀ e past) (hstage : e₀.AtStage K U)
    (hr : Rounds e₀ past e) (hp : e.proceed limit pause past = (stop, e', laps))
    (hverdict : stop.verdict? = some verdict) : e₀.proceed limit none [] = (.decided verdict, e', laps) := by
  obtain ⟨spent, hspent⟩ := h
  have hlater : search limit none (spent + e.roundBound) e₀ [] = (.decided verdict, e', laps) := by
    rw [hspent]
    exact search_of_verdict hp hverdict
  have hne : verdict ≠ .undecided := by
    cases ends_of_proceed (hstage.rounds hr) hr hp <;> cases hverdict <;> simp
  have hbound : (e₀.proceed limit none []).1 ≠ .decided .undecided := proceed_ne_undecided hstage
  generalize hp₀ : e₀.proceed limit none [] = result at hbound
  obtain ⟨stop₀, e₁, laps₁⟩ := result
  -- with the fuel of both the search has both results
  have hone := search_add_fuel hp₀ hbound (spent + e.roundBound)
  have htwo := search_add_fuel hlater (by simpa using hne) e₀.roundBound
  rw [Nat.add_comm, htwo] at hone
  exact hone.symm

/-! ## Rounds that are over -/

/-- How many rounds are over when a run has come to its verdict: all but the one that found the empty clause. -/
def completed (verdict : Verdict) (rounds : Nat) : Nat :=
  match verdict with
  | .proven _ => rounds - 1
  | _ => rounds

/-- A search that comes to its verdict does so before the round after which it would halt is over. -/
theorem completed_search (hs : search limit pause fuel e past = (.decided verdict, e', laps)) :
    past.length ≤ completed verdict laps.length ∧
      ∀ r : Int, pause = some r → past.length < r → completed verdict laps.length < r := by
  induction fuel generalizing e past with
  | zero =>
    cases hs
    exact ⟨le_refl _, fun r _ hr => hr⟩
  | succ fuel ih =>
    have hlength : ∀ lap : Lap, (past ++ [lap]).length = past.length + 1 := by simp
    cases advances limit e past with
    | limit _ hnext =>
      rw [hnext] at hs
      cases hs
      exact ⟨le_refl _, fun r _ hr => hr⟩
    | refuted _ _ hnext =>
      rw [hnext] at hs
      cases hs
      simp only [completed, hlength]
      exact ⟨by omega, fun r _ hr => by omega⟩
    | stalled _ _ hnext =>
      rw [hnext] at hs
      split at hs
      · cases hs
      · rename_i hpause
        cases hs
        simp only [completed, hlength]
        refine ⟨by omega, fun r hr hlt => ?_⟩
        have hne : r ≠ ((past.length + 1 : Nat) : Int) := fun heq => hpause (heq ▸ hr)
        omega
    | productive _ _ hnext =>
      rw [hnext] at hs
      split at hs
      · cases hs
      · rename_i hpause
        obtain ⟨hle, hlt⟩ := ih hs
        rw [hlength] at hle hlt
        refine ⟨by omega, fun r hr hr' => hlt r hr ?_⟩
        have hne : r ≠ ((past.length + 1 : Nat) : Int) := fun heq => hpause (heq ▸ hr)
        omega

end Engine

/-- The rounds of the run that are over. -/
def Outcome.completed (o : Outcome) : Nat := Engine.completed o.verdict o.history.length

/-! ## Agendas -/

theorem eraseDups_sublist {α : Type} [BEq α] : ∀ as : List α, as.eraseDups.Sublist as
  | [] => by simp
  | a :: as => by
    rw [List.eraseDups_cons]
    exact .cons_cons a ((eraseDups_sublist _).trans List.filter_sublist)
termination_by as => as.length
decreasing_by exact Nat.lt_succ_of_le (List.length_filter_le _ _)

namespace Session

variable {hooks : List (Int × Action)} {abort : Option Int}

theorem pairwise_agenda (hooks : List (Int × Action)) (abort : Option Int) :
    (agenda hooks abort).Pairwise (· < ·) := by
  unfold agenda
  generalize (hooks.map (·.1) ++ abort.toList).filter (0 < ·) = rounds
  refine ((pairwise_sorted_key id rounds).sublist (eraseDups_sublist _)).imp₂ (fun _ _ => lt_of_le_of_ne)
    (nodup_eraseDups _)

theorem mem_agenda {round : Int} : round ∈ agenda hooks abort ↔
    0 < round ∧ (round ∈ hooks.map (·.1) ∨ abort = some round) := by
  unfold agenda
  rw [List.mem_eraseDups, (sorted_perm _ _).mem_iff, List.mem_filter, List.mem_append, Option.mem_toList, and_comm]
  simp

end Session

end Clausal
