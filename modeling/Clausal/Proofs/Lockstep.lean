import Clausal.Engine.Run
import Mathlib.Data.List.Forall2

/-!
# Searches in lockstep

Two searches with the same limit, of which each round of the one has its counterpart in the other.

* `Engine.Lockstep R E T`: related engines make rounds that are told alike (`E`) and end in the same way, and are
  related again; where both find the empty clause, its positions are related by `T`;
* `Engine.Lockstep.search`: then the searches stop in the same way after the same number of rounds.
-/

namespace Clausal

variable {T : Int → Int → Prop}

/-- The rounds end in the same way. -/
inductive RoundEnd.Matches (T : Int → Int → Prop) : RoundEnd → RoundEnd → Prop
  | refuted {i j : Int} (h : T i j) : Matches T (.refuted i) (.refuted j)
  | productive : Matches T .productive .productive
  | stalled : Matches T .stalled .stalled

/-- The verdicts are of one kind, and name the same reason. -/
inductive Verdict.Matches (T : Int → Int → Prop) : Verdict → Verdict → Prop
  | proven {i j : Int} (h : T i j) : Matches T (.proven i) (.proven j)
  | unknown (reason : Reason) : Matches T (.unknown reason) (.unknown reason)
  | undecided : Matches T .undecided .undecided

theorem RoundEnd.Matches.of_eq {x y : RoundEnd} (h : x = y) : x.Matches Eq y := by
  subst h
  cases x with
  | refuted i => exact .refuted rfl
  | productive => exact .productive
  | stalled => exact .stalled

theorem Verdict.Matches.eq {x y : Verdict} (h : x.Matches Eq y) : x = y := by
  cases h with
  | proven h => rw [h]
  | unknown | undecided => rfl

namespace Engine

/-- The searches stop in the same way. -/
inductive Stop.Matches (T : Int → Int → Prop) : Stop → Stop → Prop
  | decided {x y : Verdict} (h : x.Matches T y) : Matches T (.decided x) (.decided y)
  | paused (stalled : Bool) : Matches T (.paused stalled) (.paused stalled)

theorem Stop.Matches.eq {x y : Stop} (h : x.Matches Eq y) : x = y := by
  cases h with
  | decided h => rw [h.eq]
  | paused => rfl

/-- The history that laps leave. -/
def entries (laps : List Lap) : List RoundEntry := laps.map (·.report.entry)

theorem entries_snoc (laps : List Lap) (lap : Lap) : entries (laps ++ [lap]) = entries laps ++ [lap.report.entry] := by
  simp [entries]

/-- Rounds of related engines are told alike, end in the same way, and lead to related engines. -/
def Lockstep (R : Engine → Engine → Prop) (E : RoundEntry → RoundEntry → Prop) (T : Int → Int → Prop) : Prop :=
  ∀ {e e' : Engine} (n : Nat), R e e' → E (e.round n).1.entry (e'.round n).1.entry ∧
    (e.round n).1.ending.Matches T (e'.round n).1.ending ∧ R (e.round n).2 (e'.round n).2

/-- **Searches from related engines go the same way.** -/
theorem Lockstep.search {R : Engine → Engine → Prop} {E : RoundEntry → RoundEntry → Prop} {e e' : Engine}
    (hstep : Lockstep R E T) (h : R e e') (limit pause : Option Int) (fuel : Nat) {past past' : List Lap}
    (hpast : List.Forall₂ E (entries past) (entries past')) :
    (Engine.search limit pause fuel e past).1.Matches T (Engine.search limit pause fuel e' past').1 ∧
    R (Engine.search limit pause fuel e past).2.1 (Engine.search limit pause fuel e' past').2.1 ∧
    List.Forall₂ E (entries (Engine.search limit pause fuel e past).2.2)
      (entries (Engine.search limit pause fuel e' past').2.2) := by
  induction fuel generalizing e e' past past' with
  | zero => exact ⟨.decided .undecided, h, hpast⟩
  | succ fuel ih =>
    have hlength : past.length = past'.length := by simpa [entries] using hpast.length_eq
    rw [Engine.search, Engine.search, hlength]
    split
    · exact ⟨.decided (.unknown _), h, hpast⟩
    obtain ⟨hentry, hending, hengine⟩ := hstep (past'.length + 1) h
    generalize e.round (past'.length + 1) = x at hentry hending hengine
    generalize e'.round (past'.length + 1) = y at hentry hending hengine
    obtain ⟨⟨entry, events, ending⟩, e₁⟩ := x
    obtain ⟨⟨entry', events', ending'⟩, e₁'⟩ := y
    dsimp only at hentry hending hengine ⊢
    have hlaps : List.Forall₂ E (entries (past ++ [⟨⟨entry, events, ending⟩, e₁.view⟩]))
        (entries (past' ++ [⟨⟨entry', events', ending'⟩, e₁'.view⟩])) := by
      rw [entries_snoc, entries_snoc]
      exact List.rel_append hpast (.cons hentry .nil)
    have hcount : ∀ (ls : List Lap) (lap : Lap), (ls ++ [lap]).length = ls.length + 1 := by simp
    rw [hcount, hcount, hlength]
    cases hending with
    | refuted hposition => exact ⟨.decided (.proven hposition), hengine, hlaps⟩
    | stalled =>
      dsimp only
      split
      · exact ⟨.paused true, hengine, hlaps⟩
      · exact ⟨.decided (.unknown _), hengine, hlaps⟩
    | productive =>
      dsimp only
      split
      · exact ⟨.paused false, hengine, hlaps⟩
      · exact ih hengine hlaps

end Engine

end Clausal
