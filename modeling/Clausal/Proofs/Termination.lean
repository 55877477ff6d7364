import Clausal.Proofs.Bookkeeping
import Clausal.Proofs.Refinement
import Clausal.Proofs.Verdict

/-!
# Every run comes to an end

A run without a limit ends, and within as many rounds as there are patterns over the atoms of the knowledge base
and the goal.  The working set grows and shrinks on the way, but what it covers only grows:

* `Engine.workingAt e₀ laps k`: the working set after the first `k` rounds of a run;
* `Engine.Ends.covered_workingAt`: what it covers once, it covers to the end of the run.  So a set that left it
  does not come back, and what a round brings was in none of the working sets before;
* `Engine.Rounds.length_le`: every productive round covers a pattern more, and one pattern is never covered, the
  one in which no atom occurs.
-/

namespace Clausal

/-- The pattern in which no atom occurs fits only the empty set. -/
theorem coverage_card_lt {A : Finset String} {W : Set LiteralSet} (h : .empty ∉ W) :
    (coverage A W).card < 3 ^ A.card := by
  have hcard : Fintype.card (Pattern A) = 3 ^ A.card := by simp [Pattern]
  rw [← hcard]
  refine Finset.card_lt_univ_of_notMem (x := fun _ => none) fun hmem => ?_
  obtain ⟨c, hc, hfits⟩ := mem_coverage.1 hmem
  have hempty : c = .empty := by
    refine LiteralSet.subset_empty_iff.1 fun l hl => ?_
    obtain ⟨ha, hnone⟩ := hfits l hl
    cases hnone
  exact h (hempty ▸ hc)

namespace Engine

/-! ## One round -/

section Round

variable {K U : Set LiteralSet} {e e' : Engine} {n : Nat} {report : RoundReport} {i : Int}
  {s : LiteralSet}

/-- A round that finds the empty clause changes nothing in the working set. -/
theorem refuted_frame (h : e.round n = (report, e')) (hend : report.ending = .refuted i) :
    e'.working = e.working ∧ report.entry.produced = [LiteralSet.name .empty] ∧
      report.entry.removed = [] := by
  have hall := Sweep.finds_all e
  unfold Engine.round at h
  cases hs : Sweep.all e with
  | error found =>
    rw [hs] at hall h
    cases h
    exact ⟨hall.2.working, rfl, rfl⟩
  | ok w =>
    rw [hs] at h
    dsimp only at h
    split at h <;> cases h <;> simp at hend

theorem AtStage.irredundant (h : e.AtStage K U) : Irredundant e.working.sets := by
  obtain ⟨P, hP⟩ := h
  exact hP.toIrredundant

/-- What a round makes of the working set: it is as it was, or it is saturated. -/
theorem AtStage.working_round (h : e.AtStage K U) (hround : e.round n = (report, e')) :
    e'.working.sets = e.working.sets ∨
      (e'.working.sets = saturate e.working.sets e.support.sets ∧ Irredundant e'.working.sets) := by
  rcases h.round_cases hround with ⟨-, i, hi⟩ | ⟨hempty, new, gone, hc⟩
  · exact .inl (congrArg ClauseTable.sets (refuted_frame hround hi).1)
  · refine .inr ⟨hc.working, ?_⟩
    obtain ⟨P, hP⟩ := h
    rw [hc.working]
    exact (hP.next hempty).toIrredundant

theorem AtStage.covered_round (h : e.AtStage K U) (hround : e.round n = (report, e'))
    (hs : Covered e.working.sets s) : Covered e'.working.sets s := by
  rcases h.working_round hround with heq | ⟨heq, -⟩
  · exact heq ▸ hs
  · rw [heq]
    exact covered_saturate hs

theorem AtStage.irredundant_round (h : e.AtStage K U) (hround : e.round n = (report, e')) :
    Irredundant e'.working.sets := by
  rcases h.working_round hround with heq | ⟨-, hirr⟩
  · exact heq ▸ h.irredundant
  · exact hirr

end Round

/-- The literal sets that a round brought: the new support, the empty set, or nothing. -/
def Lap.brought (lap : Lap) : List LiteralSet :=
  match lap.report.ending with
  | .productive => lap.after.support.map Clause.literals
  | .refuted _ => [.empty]
  | .stalled => []

/-- **What a round brings** is named in the history, it is all that is new in the working set, and nothing of it was
covered before. -/
theorem AtStage.brought {K U : Set LiteralSet} {e e' : Engine} {n : Nat} {lap : Lap} (h : e.AtStage K U)
    (hround : e.round n = (lap.report, e')) (hafter : lap.after = e'.view) :
    lap.report.entry.produced = lap.brought.map LiteralSet.name ∧
    (∀ s ∈ setsOf lap.after.working, s ∈ e.working.sets ∨ s ∈ lap.brought) ∧
    ∀ s ∈ lap.brought, ¬Covered e.working.sets s := by
  have hworking : setsOf lap.after.working = e'.working.sets := by rw [hafter]; rfl
  rcases h.round_cases hround with ⟨-, i, hi⟩ | ⟨hempty, new, gone, hc⟩
  · obtain ⟨hsame, hproduced, -⟩ := refuted_frame hround hi
    simp only [Lap.brought, hi]
    refine ⟨hproduced, fun s hs => .inl ?_, fun s hs => ?_⟩
    · rwa [hworking, hsame] at hs
    · rw [List.mem_singleton.1 hs, covered_empty_iff]
      exact h.irredundant.nonempty
  have hnew : ∀ s, s ∈ new.sets → ¬Covered e.working.sets s := by
    intro s hs
    rw [hc.produced] at hs
    exact not_covered_of_mem_produced hs
  have hstays : ∀ s ∈ setsOf lap.after.working, s ∈ e.working.sets ∨ s ∈ new.sets := by
    intro s hs
    rw [hworking, hc.working] at hs
    rw [hc.produced]
    exact mem_or_mem_produced hs
  have hkeys : ∀ s, s ∈ new.toList.map Clause.literals ↔ s ∈ new.sets := fun s => ClauseTable.mem_keys
  have hbrought : lap.brought = new.toList.map Clause.literals := by
    by_cases hnil : new.toList = []
    · simp [Lap.brought, (hc.stalled hnil).1, hnil]
    · obtain ⟨hend, hsupport⟩ := hc.productive hnil
      simp only [Lap.brought, hend, hafter]
      rw [← hsupport]
      rfl
  rw [hbrought]
  refine ⟨?_, fun s hs => (hstays s hs).imp_right (hkeys s).2, fun s hs => hnew s ((hkeys s).1 hs)⟩
  rw [hc.entryProduced, List.map_map]
  rfl

/-! ## All rounds of a run -/

/-- The working set after the first `k` rounds of a run from `e₀`. -/
def workingAt (e₀ : Engine) (laps : List Lap) (k : Nat) : Set LiteralSet :=
  setsOf (e₀.seen (laps.take k)).working

section Run

variable {K U : Set LiteralSet} {e₀ e : Engine} {limit : Option Int} {verdict : Verdict}
  {laps : List Lap} {s : LiteralSet} {i j k : Nat}

theorem Rounds.workingAt_length {past rest : List Lap} (h : Rounds e₀ past e) :
    e₀.workingAt (past ++ rest) past.length = e.working.sets := by
  unfold workingAt
  rw [List.take_left, h.seen_eq]
  rfl

/-- The working sets before and after a round of a run. -/
theorem Ends.workingAt_succ (hends : Ends e₀ limit none (.decided verdict) laps e)
    (hk : k < laps.length) : ∃ e₁ e₂ : Engine, ∃ past : List Lap, past.length = k ∧ Rounds e₀ past e₁ ∧
      (∃ report, e₁.round (k + 1) = (report, e₂)) ∧ e₀.workingAt laps k = e₁.working.sets ∧
      e₀.workingAt laps (k + 1) = e₂.working.sets := by
  have hsplit : laps = laps.take k ++ laps[k] :: laps.drop (k + 1) := by simp
  have hlength : (laps.take k).length = k := by simp; omega
  obtain ⟨e₁, e₂, hrounds, hround, hafter, -⟩ := hends.split hsplit
  rw [hlength] at hround
  refine ⟨e₁, e₂, laps.take k, hlength, hrounds, ⟨_, hround⟩, ?_, ?_⟩
  · unfold workingAt
    rw [hrounds.seen_eq]
    rfl
  · unfold workingAt seen
    rw [List.getLast?_take, if_neg (by omega), Nat.add_sub_cancel, List.getElem?_eq_getElem hk]
    simp only [Option.some_or, Option.map_some, Option.getD_some, hafter]
    rfl

theorem Ends.covered_workingAt (h : e₀.AtStage K U)
    (hends : Ends e₀ limit none (.decided verdict) laps e) (hij : i ≤ j) (hj : j ≤ laps.length)
    (hs : Covered (e₀.workingAt laps i) s) : Covered (e₀.workingAt laps j) s := by
  induction j, hij using Nat.le_induction with
  | base => exact hs
  | succ j hij ih =>
    obtain ⟨e₁, e₂, past, -, hrounds, ⟨report, hround⟩, hbefore, hafter⟩ := hends.workingAt_succ hj
    have hcov := ih (by omega)
    rw [hbefore] at hcov
    rw [hafter]
    exact (h.rounds hrounds).covered_round hround hcov

theorem Ends.irredundant_workingAt (h : e₀.AtStage K U)
    (hends : Ends e₀ limit none (.decided verdict) laps e) (hk : k ≤ laps.length) :
    Irredundant (e₀.workingAt laps k) := by
  cases k with
  | zero => exact h.irredundant
  | succ k =>
    obtain ⟨e₁, e₂, past, -, hrounds, ⟨report, hround⟩, -, hafter⟩ := hends.workingAt_succ hk
    rw [hafter]
    exact (h.rounds hrounds).irredundant_round hround

/-- **What left the working set does not come back**: something smaller has taken its place for good. -/
theorem Ends.notMem_workingAt (h : e₀.AtStage K U)
    (hends : Ends e₀ limit none (.decided verdict) laps e) (hij : i ≤ j) (hjk : j ≤ k)
    (hk : k ≤ laps.length) (hi : s ∈ e₀.workingAt laps i) (hj : s ∉ e₀.workingAt laps j) :
    s ∉ e₀.workingAt laps k := by
  intro hs
  obtain ⟨c, hc, hcs⟩ := hends.covered_workingAt h hij (hjk.trans hk) (covered_of_mem hi)
  obtain ⟨d, hd, hdc⟩ := hends.covered_workingAt h hjk hk (covered_of_mem hc)
  have hds : d = s := (hends.irredundant_workingAt h hk).antichain.eq hd hs
    (LiteralSet.subset_trans hdc hcs)
  have hcs' : c = s := LiteralSet.subset_antisymm hcs (hds ▸ hdc)
  exact hj (hcs' ▸ hc)

/-! ## The number of rounds -/

theorem Rounds.length_le {A : Finset String} (h : e₀.AtStage K U) (hA : Within A e₀.working.sets)
    (hr : Rounds e₀ laps e) :
    laps.length ≤ (coverage A e.working.sets).card ∧ Within A e.working.sets := by
  induction hr with
  | nil => exact ⟨by simp, hA⟩
  | @snoc past e e' report hr hround hend ih =>
    obtain ⟨hlength, hwithin⟩ := ih
    have hstage := h.rounds hr
    obtain ⟨-, hworking, r, hproduced⟩ := hstage.productive hround hend
    have hwithin' : Within A (saturate e.working.sets e.support.sets) :=
      hwithin.saturate (hstage.within_support hwithin)
    have hgrows := Finset.card_lt_card (coverage_ssubset hwithin' hproduced)
    rw [hworking, List.length_append, List.length_singleton]
    exact ⟨by omega, hwithin'⟩

theorem Ends.length_le {A : Finset String} (h : e₀.AtStage K U) (hA : Within A e₀.working.sets)
    (hends : Ends e₀ limit none (.decided verdict) laps e) : laps.length ≤ 3 ^ A.card := by
  have hrounds : ∀ {past : List Lap} {e : Engine}, Rounds e₀ past e → past.length < 3 ^ A.card := by
    intro past e hr
    exact lt_of_le_of_lt (hr.length_le h hA).1 (coverage_card_lt (h.rounds hr).irredundant.nonempty)
  have hlast : ∀ {past : List Lap} {lap : Lap} {e : Engine}, Rounds e₀ past e →
      (past ++ [lap]).length ≤ 3 ^ A.card := by
    intro past lap e hr
    have := hrounds hr
    rw [List.length_append, List.length_singleton]
    omega
  cases hends with
  | limit hr => exact (hrounds hr).le
  | refuted hr => exact hlast hr
  | stalled hr => exact hlast hr

theorem Settled.within_start {goal : Clause} (h : e.Settled) (hgoal : e.goal = some goal) :
    Within (atoms (e.knowledge.toList ++ [goal])).toFinset e.start.2.working.sets := by
  have hatom : ∀ c ∈ e.knowledge.toList ++ [goal], ∀ l, l ∈ c.literals →
      l.atom ∈ (atoms (e.knowledge.toList ++ [goal])).toFinset := by
    intro c hc l hl
    rw [List.mem_toFinset, atoms, List.mem_eraseDups, List.mem_flatMap]
    exact ⟨c, hc, List.mem_map_of_mem hl⟩
  rw [h.sets_working_start hgoal]
  rintro s (⟨⟨c, hc, rfl⟩, -⟩ | ⟨m, hm, rfl⟩) l hl
  · exact hatom c (List.mem_append_left _ hc) l hl
  · have hlm : l.atom = m.atom := by
      rw [LiteralSet.mem_singleton.1 hl]
      rfl
    rw [hlm]
    exact hatom goal (by simp) m hm

end Run

/-- **A run without a limit returns, within the clause space.**  No set that a round brings was in a working set
before, no set that left the working set comes back, and there are no more rounds than patterns over the atoms of
the knowledge base and the goal. -/
theorem run_within_clause_space {e : Engine} {goal : Clause} (h : e.Attained)
    (hgoal : e.goal = some goal) : ∃ r e', e.run none = .ok (r, e') ∧
      ((∃ i, r.verdict = .proven i) ∨ r.verdict = .unknown .fixpoint) ∧
      (∀ past lap rest, r.laps = past ++ lap :: rest →
        lap.report.entry.produced = lap.brought.map LiteralSet.name ∧
        (∀ s ∈ setsOf lap.after.working,
          s ∈ e.start.2.workingAt r.laps past.length ∨ s ∈ lap.brought) ∧
        ∀ s ∈ lap.brought, ∀ k ≤ past.length, s ∉ e.start.2.workingAt r.laps k) ∧
      (∀ s i j k, i ≤ j → j ≤ k → k ≤ r.laps.length → s ∈ e.start.2.workingAt r.laps i →
        s ∉ e.start.2.workingAt r.laps j → s ∉ e.start.2.workingAt r.laps k) ∧
      r.history.length ≤ 3 ^ (atoms (e.knowledge.toList ++ [goal])).toFinset.card := by
  have hsettled := h.tidy.settled
  have hstage := hsettled.atStage hgoal
  have hrun := run_eq hgoal none
  generalize e.pursue goal none = result at hrun
  obtain ⟨r, e'⟩ := result
  obtain ⟨-, hruns, -⟩ := hsettled.run hrun
  refine ⟨r, e', hrun, hruns.proven_or_fixpoint, ?_⟩
  have hhistory : r.history.length = r.laps.length := List.length_map _
  rw [hhistory]
  cases hruns with
  | conflict _ hlaps =>
    simp only [hlaps, List.length_nil]
    refine ⟨by simp, fun s i j k hij hjk hk hi hj => ?_, Nat.zero_le _⟩
    obtain rfl : i = j := by omega
    exact absurd hi hj
  | search _ hends =>
    refine ⟨fun past lap rest hlaps => ?_,
      fun s i j k hij hjk hk => hends.notMem_workingAt hstage hij hjk hk,
      hends.length_le hstage (hsettled.within_start hgoal)⟩
    obtain ⟨e₁, e₂, hrounds, hround, hafter, -⟩ := hends.split hlaps
    obtain ⟨hnames, hnew, hbrought⟩ := (hstage.rounds hrounds).brought hround hafter
    have hbefore : e.start.2.workingAt r.laps past.length = e₁.working.sets := by
      rw [hlaps]
      exact hrounds.workingAt_length
    refine ⟨hnames, hbefore ▸ hnew, fun s hs k hk hmem => hbrought s hs ?_⟩
    rw [← hbefore]
    refine hends.covered_workingAt hstage hk ?_ (covered_of_mem hmem)
    simp [hlaps]

theorem run_within_clause_space_unit :
    let goal : Clause := { literals := .singleton ⟨"q", false⟩ }
    let e := ((({} : Engine).add "p v q").2.add "~p").2.aim goal
    e.Attained ∧ e.goal = some goal ∧ ∃ r e', e.run none = .ok (r, e') ∧ r.history.length ≤ 3 ^ 2 := by
  intro goal e
  have h : e.Attained := ⟨[.add "p v q", .add "~p", .goal "q"], rfl⟩
  have hgoal : e.goal = some goal := rfl
  have hatoms : (atoms (e.knowledge.toList ++ [goal])).toFinset.card = 2 := by decide +kernel
  clear_value e
  obtain ⟨r, e', hrun, -, -, -, hlength⟩ := run_within_clause_space h hgoal
  exact ⟨h, hgoal, r, e', hrun, hatoms ▸ hlength⟩

end Engine

end Clausal
