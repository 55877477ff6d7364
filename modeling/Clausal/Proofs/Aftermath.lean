import Clausal.Proofs.Record

/-!
# What is left of a run

A run clears up after itself on every way out of it: when it comes to a verdict and when it is given up between two
rounds.

* `Engine.Cleared e e'`: `e'` is what a run of `e` leaves, that is the knowledge base with new numbers and nothing else;
* `Session.run_clears`: every run leaves this, unless there is no goal, and then nothing changes.
-/

namespace Clausal

namespace Engine

variable {e e₁ e' : Engine}

/-- The second engine has the knowledge base of the first, numbered from the beginning, and no goal. -/
structure Cleared (e e' : Engine) : Prop where
  keys : e'.knowledge.keys = e.knowledge.keys
  ids : e'.knowledge.ids = numbersFrom 1 e.knowledge.toList.length
  counter : e'.counter = e.knowledge.toList.length + 1
  goal : e'.goal = none
  support : e'.support.toList = []
  working : e'.working.toList = []

theorem cleared_reset (h : e₁.knowledge = e.knowledge) : e.Cleared e₁.reset where
  keys := by rw [keys_knowledge_reset, h]
  ids := by rw [ids_knowledge_reset, h]
  counter := by
    have hlength : (renumbered 1 e₁.knowledge.toList).length = e.knowledge.toList.length := by
      have hids := congrArg List.length (ids_renumbered 1 e₁.knowledge.toList)
      simpa [numbersFrom, h] using hids
    show 1 + ((renumbered 1 e₁.knowledge.toList).length : Int) = _
    omega
  goal := rfl
  support := rfl
  working := rfl

theorem cleared_run {limit : Option Int} {r : Run} (hrun : e.run limit = .ok (r, e')) : e.Cleared e' := by
  unfold run at hrun
  split at hrun
  · cases hrun
  rename_i goal _
  obtain ⟨e₂, laps, verdict, hsteady, hpursue⟩ := exists_pursue e goal limit
  rw [hpursue] at hrun
  cases hrun
  exact cleared_reset (hsteady.knowledge.trans (frame_start e).1)

end Engine

namespace Session

/-- **A run clears up after itself.**  It fails for want of a goal just if there is none, and then nothing changes.
Otherwise it returns a verdict or is given up after a round, and either way the knowledge base is as it was but for its
numbers, and there is no goal, support or working set. -/
theorem run_clears {s : Session} {hooks : List (Int × Action)} (h : s.engine.Attained) (options : RunOptions)
    (hspares : ∀ hook ∈ hooks, Spares s.current hook.2) :
    (∃ outcome printed snapshots answers s',
      s.run options hooks = (.run outcome printed snapshots answers, s') ∧
      (outcome = .error .noGoal ↔ s.engine.goal = none) ∧ (s.engine.goal = none → s' = s) ∧
      (s.engine.goal ≠ none → s.engine.Cleared (s'.engineAt s.current) ∧
        ((∃ o i, outcome = .ok o ∧ o.verdict = .proven i) ∨
          (∃ o reason, outcome = .ok o ∧ o.verdict = .unknown reason) ∨
          ∃ round, outcome = .error (.aborted round) ∧ options.abort = some round))) ∧
    (∀ fault, s.engine.run options.limit = .error fault ↔ fault = .noGoal ∧ s.engine.goal = none) ∧
    ∀ r e', s.engine.run options.limit = .ok (r, e') → s.engine.Cleared e' := by
  refine ⟨?_, fun fault => ?_, fun r e' => Engine.cleared_run⟩
  swap
  · unfold Engine.run
    cases s.engine.goal <;> simp [eq_comm]
  cases hgoal : s.engine.goal with
  | none =>
    have hrun := run_of_no_goal options hooks hgoal
    exact ⟨.error .noGoal, _, _, _, s, hrun, by simp, fun _ => rfl, fun hn => absurd rfl hn⟩
  | some goal =>
    obtain ⟨p, ⟨hgoal', hknowledge⟩, ⟨verdict, hrun⟩ | ⟨round, habort, hrun⟩⟩ := run_cases options hgoal hspares
    all_goals have hbound := lt_size_of_goal hgoal'
    · obtain ⟨outcome, printed, snapshots, answers, s', r, hfinish, hlast, hverdict⟩ :=
        exists_finish s.current options goal verdict p
      rw [hfinish] at hrun
      refine ⟨.ok outcome, printed, snapshots, answers, s', hrun, by simp, by simp, fun _ => ⟨?_, ?_⟩⟩
      · have hengine : s'.engineAt s.current = (p.session.engineAt s.current).reset :=
          (congrArg (·.2.engineAt s.current) hfinish).symm.trans (engineAt_setEngine hbound)
        rw [hengine]
        exact Engine.cleared_reset hknowledge
      · have hruns := (Engine.Returns.hooked rfl rfl hspares hrun hlast hverdict).runs h.tidy.settled
        have hdecided := hruns.2.ne_undecided
        rw [← hverdict] at hdecided
        cases hv : outcome.verdict with
        | proven i => exact .inl ⟨outcome, i, rfl, hv⟩
        | unknown reason => exact .inr (.inl ⟨outcome, reason, rfl, hv⟩)
        | undecided => exact absurd hv hdecided
    · refine ⟨.error (.aborted round), _, _, _, _, hrun, by simp, by simp, fun _ => ⟨?_, ?_⟩⟩
      · rw [engineAt_setEngine hbound]
        exact Engine.cleared_reset hknowledge
      · exact .inr (.inr ⟨round, rfl, habort⟩)

/-- A hook looks at the engine after the first round, and then the run is given up. -/
theorem run_clears_aborted :
    let s := (Step.performAll [.add "s", .add "p v q", .add "~p v r", .remove "s", .goal "r"] {}).2
    let hooks : List (Int × Action) := [(1, fun s => ([.mk (.ok .nothing) s.engine.view], s))]
    s.engine.Attained ∧ (∀ hook ∈ hooks, Spares s.current hook.2) ∧ s.engine.knowledge.ids = [2, 3] ∧
      ∃ printed snapshots answers s',
        s.run { abort := some 1 } hooks = (.run (.error (.aborted 1)) printed snapshots answers, s') ∧
        s.engine.Cleared (s'.engineAt s.current) := by
  intro s hooks
  have h : s.engine.Attained := ⟨_, rfl⟩
  have hspares : ∀ hook ∈ hooks, Spares s.current hook.2 := by
    intro hook hhook
    rw [List.mem_singleton.1 hhook]
    exact fun _ => rfl
  have hids : s.engine.knowledge.ids = [2, 3] := by decide +kernel
  have hgoal : s.engine.goal ≠ none := by decide +kernel
  have haborted : (match (s.run { abort := some 1 } hooks).1 with
      | .run (.error (.aborted round)) _ _ _ => round == 1
      | _ => false) = true := by decide +kernel
  clear_value s
  obtain ⟨⟨outcome, printed, snapshots, answers, s', hrun, -, -, hcleared⟩, -⟩ :=
    run_clears h { abort := some 1 } hspares
  rw [hrun] at haborted
  refine ⟨h, hspares, hids, printed, snapshots, answers, s', ?_, (hcleared hgoal).1⟩
  rcases (hcleared hgoal).2 with ⟨o, i, rfl, -⟩ | ⟨o, reason, rfl, -⟩ | ⟨round, rfl, hround⟩
  · cases haborted
  · cases haborted
  · rw [hrun, Option.some.inj hround]

end Session

end Clausal
