import Clausal.Proofs.Hooks

/-!
# Rounds refine saturation

The laps of a run tell what was seen of the engine after each round.  From the view before a round, seen as
collections of literal sets, the view after it is the one that saturation gives, and so is the way in which
the run goes on.

* `Engine.seen e₀ past`: what was last seen of the engine in a run from `e₀`;
* `Engine.Ends.split`: any lap of a search is a round at the end of the laps before it;
* `Engine.AtStage.saturates`: what such a round does.
-/

namespace Clausal

namespace Engine

/-- What was last seen of the engine in a run from `e₀` with the laps `past`. -/
def seen (e₀ : Engine) (past : List Lap) : View := (past.getLast?.map Lap.after).getD e₀.view

theorem Rounds.seen_eq {e₀ e : Engine} {past : List Lap} (h : Rounds e₀ past e) :
    e₀.seen past = e.view := by
  cases h with
  | nil => rfl
  | snoc => simp [seen]

/-! ## The laps of a search -/

/-- How a run with the verdict goes on after a round that ends so and is followed by the laps `rest`. -/
inductive Continues (verdict : Verdict) (rest : List Lap) : RoundEnd → Prop
  | productive (h : rest = [] → verdict = .unknown .roundLimit) : Continues verdict rest .productive
  | refuted {i : Int} (hrest : rest = []) (hverdict : verdict = .proven i) :
      Continues verdict rest (.refuted i)
  | stalled (hrest : rest = []) (hverdict : verdict = .unknown .fixpoint) :
      Continues verdict rest .stalled

section Split

variable {e₀ e : Engine} {limit : Option Int} {verdict : Verdict} {laps past rest : List Lap} {lap : Lap}

theorem append_singleton_eq {α : Type} {past past' rest : List α} {a b : α}
    (h : past' ++ [b] = past ++ a :: rest) :
    (rest = [] ∧ past' = past ∧ b = a) ∨ ∃ rest', rest = rest' ++ [b] ∧ past' = past ++ a :: rest' := by
  rcases rest.eq_nil_or_concat with rfl | ⟨rest', c, hrest⟩
  · obtain ⟨rfl, hb⟩ := List.append_inj' h rfl
    exact .inl ⟨rfl, rfl, List.singleton_inj.1 hb⟩
  · rw [List.concat_eq_append] at hrest
    subst hrest
    rw [← List.cons_append, ← List.append_assoc] at h
    obtain ⟨rfl, hb⟩ := List.append_inj' h rfl
    exact .inr ⟨rest', by rw [List.singleton_inj.1 hb], rfl⟩

theorem Rounds.split (h : Rounds e₀ laps e) (hlaps : laps = past ++ lap :: rest) :
    ∃ e₁ e₂, Rounds e₀ past e₁ ∧ e₁.round (past.length + 1) = (lap.report, e₂) ∧
      lap.after = e₂.view ∧ lap.report.ending = .productive := by
  induction h generalizing rest with
  | nil => simp at hlaps
  | snoc h hround hend ih =>
    rcases append_singleton_eq hlaps with ⟨-, rfl, rfl⟩ | ⟨rest', -, hpast⟩
    · exact ⟨_, _, h, hround, rfl, hend⟩
    · exact ih hpast

/-- A lap of a search is a round after the laps before it. -/
theorem Ends.split (h : Ends e₀ limit none (.decided verdict) laps e)
    (hlaps : laps = past ++ lap :: rest) :
    ∃ e₁ e₂, Rounds e₀ past e₁ ∧ e₁.round (past.length + 1) = (lap.report, e₂) ∧
      lap.after = e₂.view ∧ Continues verdict rest lap.report.ending := by
  -- only the last lap of a search may have another end than a productive one
  have hlast : ∀ {past' : List Lap} {e e' : Engine} {report : RoundReport}, Rounds e₀ past' e →
      e.round (past'.length + 1) = (report, e') → Continues verdict [] report.ending →
      past' ++ [⟨report, e'.view⟩] = past ++ lap :: rest →
      ∃ e₁ e₂, Rounds e₀ past e₁ ∧ e₁.round (past.length + 1) = (lap.report, e₂) ∧
        lap.after = e₂.view ∧ Continues verdict rest lap.report.ending := by
    intro past' e e' report h hround hend hlaps
    rcases append_singleton_eq hlaps with ⟨rfl, rfl, rfl⟩ | ⟨rest', rfl, hpast⟩
    · exact ⟨_, _, h, hround, rfl, hend⟩
    · obtain ⟨e₁, e₂, hr, hround', hafter, hproductive⟩ := h.split hpast
      refine ⟨e₁, e₂, hr, hround', hafter, ?_⟩
      rw [hproductive]
      exact .productive (by simp)
  cases h with
  | limit h =>
    obtain ⟨e₁, e₂, hr, hround, hafter, hproductive⟩ := h.split hlaps
    refine ⟨e₁, e₂, hr, hround, hafter, ?_⟩
    rw [hproductive]
    exact .productive fun _ => rfl
  | refuted h hround hend => exact hlast h hround (hend ▸ .refuted rfl rfl) hlaps
  | stalled h hround hend => exact hlast h hround (hend ▸ .stalled rfl rfl) hlaps

end Split

/-! ## The rounds -/

/-- A step of saturation from the working set `W` with the support `S`, as a lap tells it: the new working
set, and what the history says that was produced and removed. -/
structure Saturates (W S : Set LiteralSet) (lap : Lap) : Prop where
  working : setsOf lap.after.working = minimals (W ∪ resolvents W S)
  irredundant : Irredundant (setsOf lap.after.working)
  produced : ∃ new : ClauseTable, lap.report.entry.produced = new.toList.map Clause.name ∧
    new.sets = setsOf lap.after.working \ W
  removed : ∃ gone : ClauseTable, lap.report.entry.removed = gone.toList.map Clause.name ∧
    gone.sets = W \ setsOf lap.after.working
  support : (setsOf lap.after.working \ W).Nonempty →
    setsOf lap.after.support = setsOf lap.after.working \ W

theorem AtStage.saturates {K U : Set LiteralSet} {e e' : Engine} {n : Nat} {verdict : Verdict}
    {lap : Lap} {rest : List Lap} (h : e.AtStage K U) (hround : e.round n = (lap.report, e'))
    (hafter : lap.after = e'.view) (hend : Continues verdict rest lap.report.ending) :
    (.empty ∈ resolvents e.working.sets e.support.sets → rest = [] ∧ ∃ i, verdict = .proven i) ∧
    (.empty ∉ resolvents e.working.sets e.support.sets →
      Saturates e.working.sets e.support.sets lap ∧
      ((setsOf lap.after.working \ e.working.sets).Nonempty →
        rest = [] → verdict = .unknown .roundLimit) ∧
      (setsOf lap.after.working \ e.working.sets = ∅ →
        setsOf lap.after.working = e.working.sets ∧ rest = [] ∧ verdict = .unknown .fixpoint)) := by
  rcases h.round_cases hround with ⟨hempty, i, hi⟩ | ⟨hempty, new, gone, hc⟩
  · refine ⟨fun _ => ?_, fun hn => absurd hempty hn⟩
    rw [hi] at hend
    cases hend with
    | refuted hrest hverdict => exact ⟨hrest, i, hverdict⟩
  refine ⟨fun hn => absurd hn hempty, fun _ => ?_⟩
  have hworking : setsOf lap.after.working = saturate e.working.sets e.support.sets := by
    rw [hafter]
    exact hc.working
  have hnew : new.sets = setsOf lap.after.working \ e.working.sets := by
    rw [hworking]
    exact hc.produced
  have hirredundant : Irredundant (saturate e.working.sets e.support.sets) := by
    obtain ⟨P, hP⟩ := h
    exact (hP.next hempty).toIrredundant
  have hgone := hc.removed
  rw [← hworking] at hgone hirredundant
  have hsaturates : (new.sets.Nonempty → setsOf lap.after.support = new.sets) →
      Saturates e.working.sets e.support.sets lap := by
    rw [hnew]
    exact fun hsupport => ⟨hworking, hirredundant, ⟨new, hc.entryProduced, hnew⟩,
      ⟨gone, hc.entryRemoved, hgone⟩, hsupport⟩
  rw [← hnew]
  by_cases hnil : new.toList = []
  · have hnone : new.sets = ∅ := ClauseTable.sets_eq_empty_iff.2 hnil
    have hnot : ¬new.sets.Nonempty := Set.not_nonempty_iff_eq_empty.2 hnone
    rw [(hc.stalled hnil).1] at hend
    cases hend with
    | stalled hrest hverdict =>
      refine ⟨hsaturates fun hn => absurd hn hnot, fun hn => absurd hn hnot,
        fun _ => ⟨?_, hrest, hverdict⟩⟩
      rw [hworking]
      exact saturate_eq_self h.antichain (hc.produced ▸ hnone)
  · have hsome : new.sets ≠ ∅ := fun hn => hnil (ClauseTable.sets_eq_empty_iff.1 hn)
    obtain ⟨hproductive, hsupport⟩ := hc.productive hnil
    rw [hproductive] at hend
    cases hend with
    | productive hrest =>
      refine ⟨hsaturates fun _ => ?_, fun _ => hrest, fun hn => absurd hn hsome⟩
      rw [← hsupport, hafter]
      rfl

/-- **Every round of a run refines a step of saturation.**  The round whose lap comes after the laps `past`
is entered with the working set and the support that were last seen.  If they have the empty resolvent, the
run ends with it.  Otherwise the round is a step of saturation, after which the run goes on unless it is at
its limit, or it ends with a fixpoint if there is nothing new. -/
theorem laps_refine_saturation {e : Engine} {limit : Option Int} {r : Run} (h : e.Reachable)
    (hrun : e.Returns limit r) :
    Irredundant (setsOf e.start.2.view.working) ∧
    ∀ past lap rest, r.laps = past ++ lap :: rest →
      let W := setsOf (e.start.2.seen past).working
      let S := setsOf (e.start.2.seen past).support
      (.empty ∈ resolvents W S → rest = [] ∧ ∃ i, r.verdict = .proven i) ∧
      (.empty ∉ resolvents W S → Saturates W S lap ∧
        ((setsOf lap.after.working \ W).Nonempty → rest = [] → r.verdict = .unknown .roundLimit) ∧
        (setsOf lap.after.working \ W = ∅ →
          setsOf lap.after.working = W ∧ rest = [] ∧ r.verdict = .unknown .fixpoint)) := by
  obtain ⟨hgoal, hruns⟩ := hrun.runs h.settled
  have hstage := h.settled.atStage hgoal
  constructor
  · obtain ⟨P, hP⟩ := hstage
    exact hP.toIrredundant
  intro past lap rest hlaps
  cases hruns with
  | conflict _ hnone =>
    rw [hnone] at hlaps
    simp at hlaps
  | search _ hends =>
    obtain ⟨e₁, e₂, hrounds, hround, hafter, hend⟩ := hends.split hlaps
    rw [hrounds.seen_eq]
    exact (hstage.rounds hrounds).saturates hround hafter hend

theorem laps_refine_saturation_unit :
    let goal : Clause := { literals := .singleton ⟨"q", false⟩ }
    let e := ((({} : Engine).add "p v q").2.add "~p").2.aim goal
    e.Reachable ∧ ∃ r lap rest, e.Returns none r ∧ r.laps = lap :: rest ∧ rest ≠ [] ∧
      Saturates (setsOf e.start.2.view.working) (setsOf e.start.2.view.support) lap := by
  intro goal e
  have hset : ((({} : Engine).add "p v q").2.add "~p").2.setGoal "q" = .ok e :=
    setGoal_eq_ok_iff.2 ⟨goal, rfl, rfl⟩
  have h : e.Reachable := .setGoal (.add "~p" (.add "p v q" .fresh)) hset
  have hgoal : e.goal = some goal := rfl
  have hlength : (e.pursue goal none).1.laps.length = 2 := by decide +kernel
  clear_value e
  have hrun : e.Returns none (e.pursue goal none).1 := .alone (run_eq hgoal none)
  obtain ⟨lap, last, hlaps⟩ := List.length_eq_two.1 hlength
  obtain ⟨hrefuted, hsaturates⟩ := (laps_refine_saturation h hrun).2 [] lap [last] hlaps
  refine ⟨h, _, lap, [last], hrun, hlaps, by simp, (hsaturates fun hempty => ?_).1⟩
  cases (hrefuted hempty).1

end Engine

end Clausal
