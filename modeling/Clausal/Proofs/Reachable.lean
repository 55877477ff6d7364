import Clausal.Engine.Saved
import Clausal.Proofs.Search
import Clausal.Proofs.Start

/-!
# Reachable engines

* `Engine.Reachable`: the engines that a sequence of calls leads to, calls that fail and runs whose hooks
  take calls included;
* `Engine.Settled`: the knowledge base is free of redundancy, and the support is the negation of the goal.
  Every reachable engine is settled (`Engine.Reachable.settled`);
* `Engine.Runs e limit r`: the ways in which a run from a settled engine goes (`Engine.Settled.run`).
-/

namespace Clausal

/-! ## Parsed clauses -/

namespace Clause

theorem split_ne_nil (text : List Char) : split text ≠ [] := by
  fun_induction split text with
  | case1 => simp
  | case2 => simp
  | case3 => simp
  | case4 => simp

theorem mapM_ne_nil {α β ε : Type} {f : α → Except ε β} {as : List α} {bs : List β}
    (h : as.mapM f = .ok bs) (has : as ≠ []) : bs ≠ [] := by
  cases as with
  | nil => exact absurd rfl has
  | cons a as =>
    rw [List.mapM_cons] at h
    cases hf : f a with
    | error error =>
      rw [hf] at h
      cases h
    | ok b =>
      cases hrest : as.mapM f with
      | error error =>
        rw [hf, hrest] at h
        cases h
      | ok rest =>
        rw [hf, hrest] at h
        cases h
        simp

theorem parse_eq_ok_iff {id : Int} {text : String} {c : Clause} : parse id text = .ok c ↔
    ∃ s, parseLiterals text.toList = .ok s ∧ c = { literals := s, id } := by
  unfold parse
  cases parseLiterals text.toList with
  | error error => simp
  | ok s => simp [eq_comm]

theorem parse_eq_error_iff {id : Int} {text : String} {error : ParseError} :
    parse id text = .error error ↔ parseLiterals text.toList = .error error := by
  unfold parse
  cases parseLiterals text.toList with
  | error error => simp
  | ok s => simp

theorem literals_ne_empty_of_parse {id : Int} {text : String} {c : Clause}
    (h : Clause.parse id text = .ok c) : c.literals ≠ .empty := by
  -- a text that is read is split into at least one part, and each part is a literal
  unfold Clause.parse parseLiterals at h
  dsimp only at h
  split at h
  · cases h
  split at h
  · cases h
  cases hm : (split text.toList).mapM Literal.parse with
  | error error =>
    rw [hm] at h
    cases h
  | ok ls =>
    rw [hm] at h
    cases h
    have hne := mapM_ne_nil hm (split_ne_nil _)
    obtain ⟨l, hl⟩ := List.exists_mem_of_ne_nil ls hne
    intro he
    exact LiteralSet.not_mem_empty (he ▸ LiteralSet.mem_ofList.2 hl : l ∈ LiteralSet.empty)

end Clause

namespace Engine

/-! ## The calls -/

/-- The engines in the middle of a run from `e₀` with hooks that take calls on it.  Rounds and calls come
in any order here, and among the calls may be runs, which begin and end in the middle of it. -/
inductive Underway (e₀ : Engine) : Engine → Prop
  | start : Underway e₀ e₀.start.2
  | round {e : Engine} (n : Nat) (h : Underway e₀ e) : Underway e₀ (e.round n).2
  | add {e : Engine} (text : String) (h : Underway e₀ e) : Underway e₀ (e.add text).2
  | remove {e e' : Engine} {text : String} (h : Underway e₀ e) (hremove : e.remove text = .ok e') :
      Underway e₀ e'
  | setGoal {e e' : Engine} {text : String} (h : Underway e₀ e) (hgoal : e.setGoal text = .ok e') :
      Underway e₀ e'
  | restart {e : Engine} (h : Underway e₀ e) : Underway e₀ e.start.2
  | conflict {e : Engine} (c d : Clause) (h : Underway e₀ e) : Underway e₀ (e.registerConflict c d).2
  | reset {e : Engine} (h : Underway e₀ e) : Underway e₀ e.reset

/-- The engines that calls lead to: a new engine, one after a clause was added or removed or a goal was
set, one after a run, and one that was saved.  A text that cannot be added uses up a number, and a run
with hooks may be given up in the middle; other calls that fail change nothing. -/
inductive Reachable : Engine → Prop
  | fresh : Reachable {}
  | add {e : Engine} (text : String) (h : Reachable e) : Reachable (e.add text).2
  | remove {e e' : Engine} {text : String} (h : Reachable e) (hremove : e.remove text = .ok e') :
      Reachable e'
  | setGoal {e e' : Engine} {text : String} (h : Reachable e) (hgoal : e.setGoal text = .ok e') :
      Reachable e'
  | run {e e' : Engine} {limit : Option Int} {r : Run} (h : Reachable e)
      (hrun : e.run limit = .ok (r, e')) : Reachable e'
  | hooked {e e' : Engine} (h : Reachable e) (hrun : Underway e e') : Reachable e'.reset
  | restore {e : Engine} {saved : Saved} (h : saved.restore = .ok e) : Reachable e

/-! ## The knowledge base -/

section Knowledge

variable {e e' : Engine} {c : Clause} {text : String}

/-- **What learning a clause does**: nothing if it is a tautology or subsumed; else it goes to the end, behind the
clauses that it does not subsume. -/
theorem learn_cases (h : IsAntichain (· ⊆ ·) e.knowledge.sets) (c : Clause) :
    (c.isTautology = true ∨ Covered e.knowledge.sets c.literals) ∧ e.learn c = e ∨
    c.isTautology = false ∧ ¬Covered e.knowledge.sets c.literals ∧
      (e.learn c).knowledge.toList =
        e.knowledge.toList.filter (fun d => decide ¬c.literals ⊆ d.literals) ++ [c] := by
  unfold learn
  by_cases ht : c.isTautology = true
  · rw [if_pos ht]
    exact .inl ⟨.inl ht, rfl⟩
  · rw [if_neg ht]
    cases habs : e.knowledge.absorb c with
    | none => exact .inl ⟨.inr ((ClauseTable.absorb_eq_none_iff h).1 habs), rfl⟩
    | some result =>
      refine .inr ⟨Bool.eq_false_iff.2 ht, ?_, ?_⟩
      · rw [← ClauseTable.absorb_eq_none_iff h, habs]
        simp
      · show result.2.toList = _
        rw [(ClauseTable.toList_of_absorb habs).2]
        congr 1
        refine List.filter_congr fun d _ => ?_
        rw [Bool.eq_iff_iff, decide_eq_true_iff, ← Clause.subsumes_iff]
        simp

/-- A clause that is learned is put among the others, of which the most general ones stay. -/
theorem sets_learn (h : IsAntichain (· ⊆ ·) e.knowledge.sets) (ht : c.isTautology = false) :
    (e.learn c).knowledge.sets = minimals (insert c.literals e.knowledge.sets) := by
  unfold learn
  rw [if_neg (by rw [ht]; simp)]
  cases habs : e.knowledge.absorb c with
  | none =>
    have hcov := (ClauseTable.absorb_eq_none_iff h).1 habs
    rw [minimals_insert_of_covered hcov, minimals_eq_self h]
  | some result =>
    obtain ⟨out, knowledge⟩ := result
    have hcov : ¬Covered e.knowledge.sets c.literals := by
      rw [← ClauseTable.absorb_eq_none_iff h, habs]
      simp
    rw [minimals_insert_of_not_covered hcov, minimals_eq_self h]
    exact ClauseTable.sets_of_absorb habs

theorem irredundant_learn (h : Irredundant e.knowledge.sets) (hc : c.literals ≠ .empty) :
    Irredundant (e.learn c).knowledge.sets := by
  by_cases ht : c.isTautology = true
  · unfold learn
    rw [if_pos ht]
    exact h
  rw [Bool.not_eq_true] at ht
  rw [sets_learn h.antichain ht]
  refine irredundant_minimals ?_ ?_
  · rintro s (rfl | hs)
    · exact ht
    · exact h.proper s hs
  · rintro (he | he)
    · exact hc he.symm
    · exact h.nonempty he

theorem irredundant_add (h : Irredundant e.knowledge.sets) (text : String) :
    Irredundant (e.add text).2.knowledge.sets := by
  unfold add
  cases hp : Clause.parse e.counter text with
  | error error => exact h
  | ok c =>
    exact irredundant_learn (e := { e with counter := e.counter + 1 }) h
      (Clause.literals_ne_empty_of_parse hp)

theorem remove_eq_ok_iff :
    e.remove text = .ok e' ↔
      ∃ c, Clause.parse 0 text = .ok c ∧ e' = { e with knowledge := e.knowledge.erase c.literals } := by
  unfold remove
  cases hp : Clause.parse 0 text with
  | error error => simp
  | ok c => simp [eq_comm]

theorem setGoal_eq_ok_iff :
    e.setGoal text = .ok e' ↔ ∃ c, Clause.parse 0 text = .ok c ∧ e' = e.aim c := by
  unfold setGoal
  cases hp : Clause.parse 0 text with
  | error error => simp
  | ok c => simp [eq_comm]

theorem irredundant_remove (h : Irredundant e.knowledge.sets) (hremove : e.remove text = .ok e') :
    Irredundant e'.knowledge.sets := by
  obtain ⟨c, -, rfl⟩ := remove_eq_ok_iff.1 hremove
  refine h.subset ?_
  rw [ClauseTable.sets_erase]
  exact Set.sdiff_subset

theorem irredundant_reset (h : Irredundant e.knowledge.sets) : Irredundant e.reset.knowledge.sets := by
  rw [sets_knowledge_reset]
  exact h

/-- Whatever is done in the middle of a run, the knowledge base stays free of redundancy. -/
theorem Underway.irredundant {e₀ : Engine} (h₀ : Irredundant e₀.knowledge.sets)
    (h : Underway e₀ e) : Irredundant e.knowledge.sets := by
  induction h with
  | start =>
    rw [(starts_start e₀).knowledge]
    exact h₀
  | @round e n _ ih =>
    have hround : e.round n = ((e.round n).1, (e.round n).2) := rfl
    rw [(frame_round hround).1]
    exact ih
  | add text _ ih => exact irredundant_add ih text
  | remove _ hremove ih => exact irredundant_remove ih hremove
  | setGoal _ hgoal ih =>
    obtain ⟨c, -, rfl⟩ := setGoal_eq_ok_iff.1 hgoal
    exact ih
  | @restart e _ ih =>
    rw [(starts_start e).knowledge]
    exact ih
  | conflict c d _ ih => exact ih
  | reset _ ih => exact irredundant_reset ih

end Knowledge

/-! ## Settled engines -/

/-- The knowledge base is free of redundancy, and the support is the negation of the goal. -/
structure Settled (e : Engine) : Prop where
  knowledge : Irredundant e.knowledge.sets
  support : ∀ goal, e.goal = some goal → e.support.sets = negation goal.literals

section Settled

variable {e e' : Engine} {c : Clause} {text : String}

theorem settled_fresh : Settled {} where
  knowledge := ⟨by simp, by simp, by simp⟩
  support := by
    intro goal h
    cases h

theorem learn_frame (e : Engine) (c : Clause) : e.learn c = { e with knowledge := (e.learn c).knowledge } := by
  unfold learn
  split
  · rfl
  · split <;> rfl

theorem add_frame (e : Engine) (text : String) :
    (e.add text).2 = { e with counter := e.counter + 1, knowledge := (e.add text).2.knowledge } := by
  unfold Engine.add
  split
  · rfl
  · exact learn_frame _ _

theorem Settled.add (h : e.Settled) (text : String) : (e.add text).2.Settled := by
  refine ⟨irredundant_add h.knowledge text, ?_⟩
  rw [add_frame]
  exact h.support

theorem Settled.addAll (h : e.Settled) (texts : List String) : (e.addAll texts).2.Settled := by
  induction texts generalizing e with
  | nil => exact h
  | cons text texts ih =>
    have hadd := h.add text
    rw [Engine.addAll]
    generalize e.add text = result at hadd
    obtain ⟨_ | _, e'⟩ := result
    · exact hadd
    · exact ih hadd

theorem Settled.remove (h : e.Settled) (hremove : e.remove text = .ok e') : e'.Settled := by
  refine ⟨irredundant_remove h.knowledge hremove, ?_⟩
  obtain ⟨c, -, rfl⟩ := remove_eq_ok_iff.1 hremove
  exact h.support

theorem setsOf_negationUnits (next : Int) (ls : List Literal) :
    setsOf (negationUnits next ls) = {u | ∃ l ∈ ls, u = .singleton l.complement} := by
  induction ls generalizing next with
  | nil => simp [negationUnits]
  | cons l ls ih =>
    rw [negationUnits, setsOf_cons, ih]
    ext u
    simp

theorem Settled.aim (h : e.Settled) (c : Clause) : (e.aim c).Settled := by
  refine ⟨h.knowledge, fun goal hgoal => ?_⟩
  cases hgoal
  show (ClauseTable.ofList _).sets = _
  rw [ClauseTable.sets_ofList, setsOf_negationUnits]
  rfl

theorem addAll_of_ofTexts {texts : List String} (h : ofTexts texts = .ok e) :
    ({} : Engine).addAll texts = (.ok (), e) := by
  unfold ofTexts at h
  generalize ({} : Engine).addAll texts = result at h ⊢
  obtain ⟨_ | _, e'⟩ := result
  · cases h
  · cases h
    rfl

/-- An engine is restored from all of the texts and from nothing else, but it may count on from a higher number. -/
theorem exists_of_restore {saved : Saved} (h : saved.restore = .ok e) : ∃ texts e',
    saved.clauses = some texts ∧ ofTexts texts = .ok e' ∧ saved.misfit = none ∧
      e = { e' with counter := max (saved.counter.getD e'.counter) e'.counter } := by
  unfold Saved.restore at h
  split at h
  · cases h
  rename_i texts htexts
  split at h
  · cases h
  rename_i e' hofTexts
  split at h
  · cases h
  rename_i hmisfit
  cases h
  exact ⟨texts, e', htexts, hofTexts, hmisfit, rfl⟩

theorem settled_restore {saved : Saved} (h : saved.restore = .ok e) : e.Settled := by
  obtain ⟨texts, e', -, hofTexts, -, rfl⟩ := exists_of_restore h
  have hadd := settled_fresh.addAll texts
  rw [addAll_of_ofTexts hofTexts] at hadd
  exact ⟨hadd.knowledge, hadd.support⟩

theorem settled_reset (h : Irredundant e.knowledge.sets) : e.reset.Settled := by
  refine ⟨irredundant_reset h, fun goal hgoal => ?_⟩
  cases hgoal

/-! ## Runs -/

theorem Settled.sets_support_start (h : e.Settled) {goal : Clause} (hgoal : e.goal = some goal) :
    e.start.2.support.sets = negation goal.literals := by
  rw [(starts_start e).support, h.support goal hgoal]

theorem Settled.sets_working_start (h : e.Settled) {goal : Clause} (hgoal : e.goal = some goal) :
    e.start.2.working.sets = initialWorking e.knowledge.sets (negation goal.literals) := by
  have hsupport := h.support goal hgoal
  rw [(starts_start e).working (hsupport ▸ isAntichain_negation _), hsupport]

theorem Settled.atStage (h : e.Settled) {goal : Clause} (hgoal : e.goal = some goal) :
    e.start.2.AtStage e.knowledge.sets (negation goal.literals) := by
  refine ⟨negation goal.literals, ?_⟩
  rw [h.sets_working_start hgoal, h.sets_support_start hgoal]
  exact .initial h.knowledge

theorem run_eq {goal : Clause} (hgoal : e.goal = some goal) (limit : Option Int) :
    e.run limit = .ok (e.pursue goal limit) := by
  unfold run
  rw [hgoal]

/-- How a run from a settled engine goes: either there are complementary units in the knowledge base, or
there is a search that comes to a verdict. -/
inductive Runs (e : Engine) (limit : Option Int) (r : Run) : Prop
  | conflict {i : Int} (hconflict : Conflict e.knowledge.sets) (hlaps : r.laps = [])
      (hverdict : r.verdict = .proven i)
  | search {e' : Engine} (hconflict : ¬Conflict e.knowledge.sets)
      (hends : Ends e.start.2 limit none (.decided r.verdict) r.laps e')

theorem Runs.ne_undecided {limit : Option Int} {r : Run} (h : e.Runs limit r) : r.verdict ≠ .undecided := by
  intro hn
  cases h with
  | conflict _ _ hverdict =>
    rw [hn] at hverdict
    cases hverdict
  | search _ hends =>
    rw [hn] at hends
    cases hends

theorem Settled.run (h : e.Settled) {limit : Option Int} {r : Run}
    (hrun : e.run limit = .ok (r, e')) :
    e.goal = some r.goal ∧ e.Runs limit r ∧ e'.Settled := by
  unfold Engine.run at hrun
  split at hrun
  · cases hrun
  rename_i goal hgoal
  have hstart := starts_start e
  have hstage := h.atStage hgoal
  injection hrun with hrun
  unfold pursue at hrun
  generalize hs : e.start = started at hrun hstart hstage
  obtain ⟨copies, e₁⟩ := started
  dsimp only at hrun hstart hstage
  cases hc : findConflict [] copies with
  | some pair =>
    rw [hc] at hrun
    cases hrun
    have hconflict : Conflict e.knowledge.sets := hstart.copies ▸ conflict_of_findConflict hc
    exact ⟨hgoal, .conflict hconflict rfl rfl, settled_reset (hstart.knowledge ▸ h.knowledge)⟩
  | none =>
    rw [hc] at hrun
    dsimp only at hrun
    generalize hp : e₁.proceed limit none [] = result at hrun
    obtain ⟨stop, e₂, laps⟩ := result
    have hends := ends_of_proceed hstage .nil hp
    obtain ⟨verdict, rfl⟩ := hends.exists_verdict
    cases hrun
    have hnone : ¬Conflict e.knowledge.sets := by
      rw [← hstart.copies]
      exact findConflict_eq_none_iff.1 hc
    have hends' : Ends e.start.2 limit none (.decided verdict) laps e₂ := by
      rw [hs]
      exact hends
    refine ⟨hgoal, .search hnone hends', settled_reset ?_⟩
    rw [hends.frame.1, hstart.knowledge]
    exact h.knowledge

end Settled

/-- **Every reachable engine is settled.** -/
theorem Reachable.settled {e : Engine} (h : e.Reachable) : e.Settled := by
  induction h with
  | fresh => exact settled_fresh
  | add text _ ih => exact ih.add text
  | remove _ hremove ih => exact ih.remove hremove
  | setGoal _ hgoal ih =>
    obtain ⟨c, -, rfl⟩ := setGoal_eq_ok_iff.1 hgoal
    exact ih.aim c
  | run _ hrun ih => exact (ih.run hrun).2.2
  | hooked _ hrun ih => exact settled_reset (hrun.irredundant ih.knowledge)
  | restore h => exact settled_restore h

end Engine

end Clausal
