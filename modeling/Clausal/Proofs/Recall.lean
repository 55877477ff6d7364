import Clausal.Proofs.Bookkeeping
import Clausal.Proofs.Verdict

/-!
# Clauses that are asked back

A clause that was told is known afterwards in a form at least as general, unless it is a tautology.  If it is then asked
for, the units of its negation resolve the literals of this form away, one after the other.  None of the sets on the way
is covered by the knowledge: each is a strict part of a set that is known, and no known set subsumes another.  So the
empty set is supported (`supported_empty_of_covered`), whatever else is known and whether it is satisfiable or not.  For
a tautology two of the units clash (`supported_empty_of_tautology`).  Either way the run proves what was told
(`Engine.proven_of_told`).
-/

namespace Clausal

variable {K : Set LiteralSet} {d g s : LiteralSet}

/-! ## Resolving literals away -/

theorem LiteralSet.resolvent_unit (s : LiteralSet) (l : Literal) :
    s.resolvent (.singleton l.complement) l = s.erase l := by
  ext m
  simp

/-- Every strict part of a set that is known is supported by the negation of any set with the same literals and more:
the literals `ls` are resolved away from the last to the first. -/
theorem supported_part (hK : Irredundant K) (hd : d ∈ K) (hdg : d ⊆ g) (ls : List Literal)
    (hs : ∀ m, m ∈ s ↔ m ∈ d ∧ m ∉ ls) (hl : ∃ l ∈ ls, l ∈ d) : Supported K (negation g) s := by
  induction ls generalizing s with
  | nil => simp at hl
  | cons l ls ih =>
    by_cases hskip : l ∉ d ∨ l ∈ ls
    · -- the literal is not there or goes later
      refine ih (fun m => ?_) ?_
      · rw [hs, List.mem_cons]
        grind
      · grind
    push Not at hskip
    obtain ⟨hld, hlls⟩ := hskip
    have hsub : s ⊆ d := fun m hm => ((hs m).1 hm).1
    have hnot : l ∉ s := fun hm => ((hs l).1 hm).2 (by simp)
    have hproper : s.isTautology = false := LiteralSet.isTautology_eq_false_of_subset hsub (hK.proper d hd)
    have huncovered : ¬Covered K s := by
      rintro ⟨k, hk, hks⟩
      have heq : k = d := hK.antichain.eq hk hd (LiteralSet.subset_trans hks hsub)
      exact hnot (hks l (heq ▸ hld))
    have hunit : Supported K (negation g) (.singleton l.complement) := .unit ⟨l, hdg l hld, rfl⟩
    -- what is there before the last step, and the step
    let t := s.insert l
    have ht : ∀ m, m ∈ t ↔ m ∈ d ∧ m ∉ ls := by
      intro m
      rw [LiteralSet.mem_insert, hs, List.mem_cons]
      grind
    have hstep : t.resolvent (.singleton l.complement) l = s := by
      ext m
      rw [LiteralSet.resolvent_unit, LiteralSet.mem_erase, ht, hs, List.mem_cons]
      grind
    have hlt : l ∈ t := (ht l).2 ⟨hld, hlls⟩
    by_cases hmore : ∃ m ∈ ls, m ∈ d
    · rw [← hstep] at hproper huncovered ⊢
      exact .derived (ih ht hmore) hunit hlt (LiteralSet.mem_singleton.2 rfl) hproper huncovered
    · have heq : t = d := by
        ext m
        rw [ht]
        grind
      rw [← hstep, heq] at hproper huncovered ⊢
      exact .known hd hunit hld (LiteralSet.mem_singleton.2 rfl) hproper huncovered

theorem supported_empty_of_covered (hK : Irredundant K) (h : Covered K g) : Supported K (negation g) .empty := by
  obtain ⟨d, hd, hdg⟩ := h
  have hne : d ≠ .empty := fun he => hK.nonempty (he ▸ hd)
  refine supported_part hK hd hdg d.toList (fun m => ?_) ?_
  · simp [LiteralSet.mem_toList]
  · by_contra hnone
    push Not at hnone
    exact hne (LiteralSet.ext fun m => ⟨fun hm => absurd hm (hnone m hm), fun hm => absurd hm LiteralSet.not_mem_empty⟩)

theorem supported_empty_of_tautology (hK : Irredundant K) (h : g.isTautology = true) :
    Supported K (negation g) .empty := by
  obtain ⟨l, hl, hl'⟩ := LiteralSet.isTautology_iff.1 h
  have hunit : Supported K (negation g) (.singleton l.complement) := .unit ⟨l, hl, rfl⟩
  have hunit' : Supported K (negation g) (.singleton l) := .unit ⟨l.complement, hl', by simp⟩
  have hempty : (LiteralSet.singleton l).resolvent (.singleton l.complement) l = .empty := by
    ext m
    simp [LiteralSet.resolvent_unit]
  have hproper : LiteralSet.empty.isTautology = false := rfl
  have huncovered : ¬Covered K .empty := fun hcovered => hK.nonempty (covered_empty_iff.1 hcovered)
  rw [← hempty] at hproper huncovered ⊢
  exact .derived hunit' hunit (LiteralSet.mem_singleton.2 rfl) (LiteralSet.mem_singleton.2 rfl) hproper huncovered

/-! ## Telling and asking -/

namespace Engine

variable {e : Engine} {text : String} {c : Clause}

/-- A goal is proved without a limit if the empty set is supported. -/
theorem Runs.proven_of_supported {r : Run} {goal : Clause} (hr : e.Runs none r) (h : e.Settled)
    (hgoal : e.goal = some goal) (hs : Supported e.knowledge.sets (negation goal.literals) .empty) :
    ∃ i, r.verdict = .proven i := by
  refine hr.proven_or_fixpoint.resolve_right fun hfix => ?_
  obtain ⟨-, e₁, hstage, hproduced⟩ := hr.fixpoint h hgoal hfix
  exact hstage.not_supported_empty hproduced hs

/-- What was learned is known, or something that subsumes it. -/
theorem covered_learn (h : IsAntichain (· ⊆ ·) e.knowledge.sets) (hc : c.isTautology = false) :
    Covered (e.learn c).knowledge.sets c.literals := by
  rw [sets_learn h hc]
  exact covered_minimals_of_mem (.inl rfl)

/-- **What was told can be asked back**, tautologies included, and also of a knowledge base that is unsatisfiable. -/
theorem proven_of_told (h : e.Attained) (hparse : Clause.parse 0 text = .ok c) :
    ∃ e₁ e₂ r e₃ i, e.add text = (.ok (), e₁) ∧ e₁.setGoal text = .ok e₂ ∧ e₂.run none = .ok (r, e₃) ∧
      r.verdict = .proven i := by
  have hsettled : (e.add text).2.Settled := h.tidy.settled.add text
  obtain ⟨s, hread, rfl⟩ := Clause.parse_eq_ok_iff.1 hparse
  have hadd : e.add text = (.ok (), { e with counter := e.counter + 1 }.learn { literals := s, id := e.counter }) := by
    rw [Engine.add, Clause.parse_eq_ok_iff.2 ⟨s, hread, rfl⟩]
  rw [hadd] at hsettled ⊢
  generalize hknown : ({ e with counter := e.counter + 1 } : Engine).learn _ = e₁ at hsettled ⊢
  -- the set itself is a tautology, or something at least as general is known
  have hsupported : Supported e₁.knowledge.sets (negation s) .empty := by
    by_cases ht : s.isTautology = true
    · exact supported_empty_of_tautology hsettled.knowledge ht
    · refine supported_empty_of_covered hsettled.knowledge ?_
      rw [← hknown]
      exact covered_learn (e := { e with counter := e.counter + 1 }) h.tidy.irredundant.antichain
        (Bool.eq_false_iff.2 ht)
  let goal : Clause := { literals := s, id := 0 }
  have hset : e₁.setGoal text = .ok (e₁.aim goal) := setGoal_eq_ok_iff.2 ⟨goal, hparse, rfl⟩
  have hrun := run_eq (e := e₁.aim goal) rfl none
  obtain ⟨-, hruns, -⟩ := (hsettled.aim goal).run hrun
  obtain ⟨i, hproven⟩ := hruns.proven_of_supported (hsettled.aim goal) rfl hsupported
  exact ⟨_, _, _, _, i, rfl, hset, hrun, hproven⟩

/-- The knowledge base is unsatisfiable, and no two of its clauses are complementary units.  Of the clauses that are
told, one is subsumed by a clause that is known, and one is a tautology. -/
theorem proven_of_told_unsatisfiable :
    let e := (Step.performAll [.add "p v q", .add "p v ~q", .add "~p v q", .add "~p v ~q"] {}).2.engine
    e.Attained ∧ ∀ text ∈ ["r v q v p", "r v ~r"], (Clause.parse 0 text).isOk = true ∧
      ∃ e₁ e₂ r e₃ i, e.add text = (.ok (), e₁) ∧ e₁.setGoal text = .ok e₂ ∧ e₂.run none = .ok (r, e₃) ∧
        r.verdict = .proven i := by
  intro e
  have h : e.Attained := ⟨_, rfl⟩
  have hok : ∀ text ∈ ["r v q v p", "r v ~r"], (Clause.parse 0 text).isOk = true := by decide +kernel
  clear_value e
  refine ⟨h, fun text htext => ⟨hok text htext, ?_⟩⟩
  cases hparse : Clause.parse 0 text with
  | error error =>
    have hread := hok text htext
    rw [hparse] at hread
    cases hread
  | ok c => exact proven_of_told h hparse

end Engine

end Clausal
