import Clausal.Proofs.Completeness
import Clausal.Proofs.Hooks

/-!
# What a verdict means

A run that proves a goal shows that the knowledge base entails it.  If the knowledge base is satisfiable, a
run that reaches a fixpoint shows that it does not.  Without a limit a run proves a goal if two units of the
knowledge base are complementary, or if the empty set is supported, and otherwise it reaches a fixpoint.  So
an unsatisfiable knowledge base does not prove every goal.

* `Engine.Runs.conflict_or_supported`: what a proof of a goal rests on;
* `Engine.Runs.fixpoint`: what is left at a fixpoint.
-/

namespace Clausal

namespace Engine

section Runs

variable {e : Engine} {limit : Option Int} {r : Run} {goal : Clause} {i : Int}

/-- After a goal was set, a run is one for this goal. -/
theorem pursue_eq_of_run {e₁ e' : Engine} {text : String} (hparse : Clause.parse 0 text = .ok goal)
    (hset : e.setGoal text = .ok e₁) (hrun : e₁.run limit = .ok (r, e')) :
    (e.aim goal).pursue goal limit = (r, e') := by
  obtain ⟨goal', hparse', rfl⟩ := setGoal_eq_ok_iff.1 hset
  obtain rfl : goal = goal' := Except.ok.inj (hparse.symm.trans hparse')
  exact Except.ok.inj ((run_eq rfl limit).symm.trans hrun)

/-- A goal is proved by a conflict or by a derivation of the empty set. -/
theorem Runs.conflict_or_supported (hr : e.Runs limit r) (h : e.Settled) (hgoal : e.goal = some goal)
    (hproven : r.verdict = .proven i) :
    Conflict e.knowledge.sets ∨ Supported e.knowledge.sets (negation goal.literals) .empty := by
  cases hr with
  | conflict hconflict => exact .inl hconflict
  | search _ hends =>
    rw [hproven] at hends
    generalize r.laps = laps at hends
    cases hends with
    | refuted hrounds hround hend =>
      exact .inr (((h.atStage hgoal).rounds hrounds).supported_empty hround hend)

/-- At the end of a run that reaches a fixpoint nothing new can be produced. -/
theorem Runs.fixpoint (hr : e.Runs limit r) (h : e.Settled) (hgoal : e.goal = some goal)
    (hfix : r.verdict = .unknown .fixpoint) :
    ¬Conflict e.knowledge.sets ∧ ∃ e₁ : Engine,
      e₁.AtStage e.knowledge.sets (negation goal.literals) ∧
      produced e₁.working.sets e₁.support.sets = ∅ := by
  cases hr with
  | conflict _ _ hverdict =>
    rw [hfix] at hverdict
    cases hverdict
  | search hconflict hends =>
    rw [hfix] at hends
    generalize r.laps = laps at hends
    cases hends with
    | stalled hrounds hround hend =>
      have hstage := (h.atStage hgoal).rounds hrounds
      exact ⟨hconflict, _, hstage, hstage.produced_eq_empty hround hend⟩

theorem Runs.proven_or_fixpoint (hr : e.Runs none r) :
    (∃ i, r.verdict = .proven i) ∨ r.verdict = .unknown .fixpoint := by
  cases hr with
  | conflict _ _ hverdict => exact .inl ⟨_, hverdict⟩
  | search _ hends =>
    generalize r.verdict = verdict at hends ⊢
    generalize r.laps = laps at hends
    cases hends with
    | limit _ hlimit => cases hlimit
    | refuted => exact .inl ⟨_, rfl⟩
    | stalled => exact .inr rfl

theorem AtStage.not_supported_empty {K U : Set LiteralSet} (h : e.AtStage K U)
    (hp : produced e.working.sets e.support.sets = ∅) : ¬Supported K U .empty := by
  obtain ⟨P, hP⟩ := h
  exact hP.not_supported_empty hp

theorem AtStage.exists_models {K U : Set LiteralSet} {v : Assignment} (h : e.AtStage K U)
    (hp : produced e.working.sets e.support.sets = ∅) (hv : Models v K) :
    ∃ w, Models w K ∧ Models w U := by
  obtain ⟨P, hP⟩ := h
  exact hP.exists_models hp hv (within_atoms e)

end Runs

/-! ## Soundness -/

/-- **A goal that is proved is entailed** by the knowledge base of the moment when the run began. -/
theorem entails_of_proven {e : Engine} {limit : Option Int} {r : Run} {i : Int} (h : e.Reachable)
    (hrun : e.Returns limit r) (hproven : r.verdict = .proven i) :
    ∃ goal, e.goal = some goal ∧ Entails e.knowledge.sets goal.literals := by
  obtain ⟨hgoal, hruns⟩ := hrun.runs h.settled
  refine ⟨r.goal, hgoal, ?_⟩
  by_contra hn
  obtain ⟨v, hK, hU⟩ := not_entails_iff.1 hn
  rcases hruns.conflict_or_supported h.settled hgoal hproven with hc | hs
  · exact hc.not_models v hK
  · have hvalue := hs.value hK hU
    rw [LiteralSet.value_empty] at hvalue
    cases hvalue

/-- A hook looks at the engine after the first round. -/
theorem entails_of_proven_unit :
    let goal : Clause := { literals := .singleton ⟨"q", false⟩ }
    let e := ((({} : Engine).add "p v q").2.add "~p").2.aim goal
    e.Reachable ∧ (∃ r, e.Returns none r ∧ r.verdict = .proven 4) ∧
      Entails e.knowledge.sets goal.literals := by
  intro goal e
  have hset : ((({} : Engine).add "p v q").2.add "~p").2.setGoal "q" = .ok e :=
    setGoal_eq_ok_iff.2 ⟨goal, rfl, rfl⟩
  have h : e.Reachable := .setGoal (.add "~p" (.add "p v q" .fresh)) hset
  have hgoal : e.goal = some goal := rfl
  let hooks : List (Int × Session.Action) := [(1, fun s => ([.mk (.ok .nothing) s.engine.view], s))]
  have hverdict : (({ engines := #[e] } : Session).run {} hooks).2.runs.getLast?.map (·.2.verdict) =
      some (.proven 4) := by decide +kernel
  have hspares : ∀ hook ∈ hooks, Session.Spares 0 hook.2 := by
    intro hook hhook
    rw [List.mem_singleton.1 hhook]
    exact fun _ => rfl
  clear_value e
  obtain ⟨r, hrun, hlast⟩ := exists_returns { engines := #[e] } {} hgoal rfl hspares
  rw [hlast] at hverdict
  have hproven : r.verdict = .proven 4 := Option.some.inj hverdict
  obtain ⟨goal', hgoal', hentails⟩ := entails_of_proven h hrun hproven
  obtain rfl : goal = goal' := Option.some.inj (hgoal.symm.trans hgoal')
  exact ⟨h, ⟨r, hrun, hproven⟩, hentails⟩

/-! ## Completeness -/

theorem exists_countermodel_of_goal {e : Engine} {goal : Clause} {v : Assignment} (h : e.Settled)
    (hgoal : e.goal = some goal) (hv : Models v e.knowledge.sets) (limit : Option Int) :
    ∃ r e', e.run limit = .ok (r, e') ∧ (r.verdict = .unknown .fixpoint →
      ∃ w, Models w e.knowledge.sets ∧ goal.literals.value w = false) := by
  have hrun := run_eq hgoal limit
  refine ⟨_, _, hrun, fun hfix => ?_⟩
  obtain ⟨-, hruns, -⟩ := h.run hrun
  obtain ⟨-, e₁, hstage, hproduced⟩ := hruns.fixpoint h hgoal hfix
  obtain ⟨w, hwK, hwU⟩ := hstage.exists_models hproduced hv
  exact ⟨w, hwK, models_negation.1 hwU⟩

/-- **A satisfiable knowledge base with a fixpoint has a countermodel to the goal**: to the one that has
been set, and to any other that is set then. -/
theorem exists_countermodel_of_fixpoint {e : Engine} {v : Assignment} (h : e.Reachable)
    (hv : Models v e.knowledge.sets) (limit : Option Int) :
    (∀ goal, e.goal = some goal → ∃ r e', e.run limit = .ok (r, e') ∧
      (r.verdict = .unknown .fixpoint →
        ∃ w, Models w e.knowledge.sets ∧ goal.literals.value w = false)) ∧
    (∀ text goal, Clause.parse 0 text = .ok goal → ∃ e₁ r e', e.setGoal text = .ok e₁ ∧
      e₁.run limit = .ok (r, e') ∧ (r.verdict = .unknown .fixpoint →
        ∃ w, Models w e.knowledge.sets ∧ goal.literals.value w = false)) := by
  constructor
  · intro goal hgoal
    exact exists_countermodel_of_goal h.settled hgoal hv limit
  · intro text goal hparse
    have hset : e.setGoal text = .ok (e.aim goal) := setGoal_eq_ok_iff.2 ⟨goal, hparse, rfl⟩
    obtain ⟨r, e', hrun, hfix⟩ :=
      exists_countermodel_of_goal (e := e.aim goal) (h.settled.aim goal) rfl hv limit
    exact ⟨_, r, e', hset, hrun, hfix⟩

theorem exists_countermodel_of_fixpoint_disjunction :
    let goal : Clause := { literals := .singleton ⟨"q", false⟩ }
    let e := (({} : Engine).add "p v q").2
    e.Reachable ∧ Models (fun _ => true) e.knowledge.sets ∧ Clause.parse 0 "q" = .ok goal ∧
      ((e.aim goal).pursue goal none).1.verdict = .unknown .fixpoint ∧
      ∃ w, Models w e.knowledge.sets ∧ goal.literals.value w = false := by
  intro goal e
  have h : e.Reachable := .add "p v q" .fresh
  have hv : Models (fun _ => true) e.knowledge.sets := by
    rintro _ ⟨c, hc, rfl⟩
    revert c
    decide +kernel
  have hfix : ((e.aim goal).pursue goal none).1.verdict = .unknown .fixpoint := by decide +kernel
  have hparse : Clause.parse 0 "q" = .ok goal := rfl
  clear_value e
  obtain ⟨e₁, r, e', hset, hrun, hcounter⟩ :=
    (exists_countermodel_of_fixpoint h hv none).2 "q" goal hparse
  have hr := pursue_eq_of_run hparse hset hrun
  rw [hr] at hfix
  exact ⟨h, hv, hparse, hr ▸ hfix, hcounter hfix⟩

/-! ## Unsatisfiable knowledge bases -/

/-- **When a goal is proved**, whether the knowledge base is satisfiable or not: complementary units are
found, and other conflicts only as far as the negation of the goal has a part in them. -/
theorem proven_iff_conflict_or_supported {e : Engine} {text : String} {goal : Clause} (h : e.Reachable)
    (hparse : Clause.parse 0 text = .ok goal) :
    ∃ e₁ r e', e.setGoal text = .ok e₁ ∧ e₁.run none = .ok (r, e') ∧
      ((∃ i, r.verdict = .proven i) ↔ Conflict e.knowledge.sets ∨
        Supported e.knowledge.sets (negation goal.literals) .empty) ∧
      ((∀ i, r.verdict ≠ .proven i) → r.verdict = .unknown .fixpoint) := by
  have hset : e.setGoal text = .ok (e.aim goal) := setGoal_eq_ok_iff.2 ⟨goal, hparse, rfl⟩
  have hsettled := h.settled.aim goal
  have hrun := run_eq (e := e.aim goal) rfl none
  obtain ⟨-, hruns, -⟩ := hsettled.run hrun
  refine ⟨_, _, _, hset, hrun, ⟨?_, fun hor => ?_⟩, fun hne => ?_⟩
  · rintro ⟨i, hi⟩
    exact hruns.conflict_or_supported hsettled rfl hi
  · refine hruns.proven_or_fixpoint.resolve_right fun hfix => ?_
    -- all that is supported is covered at a fixpoint, and the empty set is not
    obtain ⟨hconflict, e₁, hstage, hproduced⟩ := hruns.fixpoint hsettled rfl hfix
    rcases hor with hc | hs
    · exact hconflict hc
    · exact hstage.not_supported_empty hproduced hs
  · refine hruns.proven_or_fixpoint.resolve_left ?_
    rintro ⟨i, hi⟩
    exact hne i hi

/-- No two of the four clauses over two atoms are complementary units, and none has a literal of the
goal. -/
theorem not_conflict_or_supported_unrelated :
    let goal : Clause := { literals := .singleton ⟨"r", false⟩ }
    let e := (({} : Engine).addAll ["p v q", "p v ~q", "~p v q", "~p v ~q"]).2
    e.Reachable ∧ Clause.parse 0 "r" = .ok goal ∧ ¬(Conflict e.knowledge.sets ∨
      Supported e.knowledge.sets (negation goal.literals) .empty) := by
  intro goal e
  have h : e.Reachable :=
    .add "~p v ~q" (.add "~p v q" (.add "p v ~q" (.add "p v q" .fresh)))
  have hfix : ((e.aim goal).pursue goal none).1.verdict = .unknown .fixpoint := by decide +kernel
  have hparse : Clause.parse 0 "r" = .ok goal := rfl
  clear_value e
  obtain ⟨e₁, r, e', hset, hrun, hproven, -⟩ := proven_iff_conflict_or_supported h hparse
  have hr := pursue_eq_of_run hparse hset hrun
  rw [hr] at hfix
  refine ⟨h, hparse, fun hor => ?_⟩
  obtain ⟨i, hi⟩ := hproven.2 hor
  rw [hfix] at hi
  cases hi

/-- **An unsatisfiable knowledge base need not prove a goal.** -/
theorem fixpoint_of_unsatisfiable :
    let e := (({} : Engine).addAll ["p v q", "p v ~q", "~p v q", "~p v ~q"]).2
    (∀ v, ¬Models v e.knowledge.sets) ∧ ∃ e₁ r e', e.setGoal "r" = .ok e₁ ∧
      e₁.run none = .ok (r, e') ∧ r.verdict = .unknown .fixpoint := by
  intro e
  constructor
  · intro v hv
    have hsets : e.knowledge.toList.map Clause.literals =
        [.ofList [⟨"p", false⟩, ⟨"q", false⟩], .ofList [⟨"p", false⟩, ⟨"q", true⟩],
          .ofList [⟨"p", true⟩, ⟨"q", false⟩], .ofList [⟨"p", true⟩, ⟨"q", true⟩]] := by
      decide +kernel
    have hall : ∀ s ∈ e.knowledge.toList.map Clause.literals, s.value v = true := by
      intro s hs
      obtain ⟨c, hc, rfl⟩ := List.mem_map.1 hs
      exact hv _ ⟨c, hc, rfl⟩
    rw [hsets] at hall
    -- each of the four assignments to the two atoms makes one of the clauses false
    cases hp : v "p" <;> cases hq : v "q" <;>
      simp [LiteralSet.value_eq_true_iff, Literal.value, hp, hq] at hall
  · let goal : Clause := { literals := .singleton ⟨"r", false⟩ }
    have hset : e.setGoal "r" = .ok (e.aim goal) := setGoal_eq_ok_iff.2 ⟨goal, rfl, rfl⟩
    have hfix : ((e.aim goal).pursue goal none).1.verdict = .unknown .fixpoint := by decide +kernel
    clear_value e
    exact ⟨_, _, _, hset, run_eq rfl none, hfix⟩

end Engine

end Clausal
