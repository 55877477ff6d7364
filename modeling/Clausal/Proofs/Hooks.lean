import Clausal.Proofs.Frame
import Clausal.Proofs.Reachable
import Clausal.Session.Basic

/-!
# Runs with hooks

* `Session.Spares number action`: the action leaves the engine with the number alone;
* `Session.ends_of_interleave`: with such hooks the rounds of a run are those of a search without a pause,
  whatever the agenda is;
* `Session.run_cases`: a run ends with a verdict or is given up, and the goal and the knowledge base are then as they
  were;
* `Engine.Returns e limit r`: the engine was run and `r` is the record, with or without such hooks.  Either
  way the run goes as it does from a settled engine (`Engine.Returns.runs`).
-/

namespace Clausal

namespace Session

/-! ## Engines of a session -/

variable {s : Session} {e : Engine} {number : Nat}

theorem engineAt_setEngine (h : number < s.engines.size) : (s.setEngine number e).engineAt number = e := by
  simp [engineAt, setEngine, h]

/-- A number beyond the engines of the session stands for a new engine, which has no goal. -/
theorem lt_size_of_goal {goal : Clause} (h : (s.engineAt number).goal = some goal) :
    number < s.engines.size := by
  by_contra hn
  have hnew : s.engineAt number = {} := by simp [engineAt, hn]
  rw [hnew] at h
  cases h

/-- Taking the action leaves the engine with the number alone. -/
def Spares (number : Nat) (action : Action) : Prop :=
  ∀ s : Session, (action s).2.engineAt number = s.engineAt number

theorem spares_act {actions : List Action} (h : ∀ action ∈ actions, Spares number action) :
    Spares number (act actions) := by
  intro s
  induction actions generalizing s with
  | nil => rfl
  | cons action actions ih =>
    show (act actions (action s).2).2.engineAt number = _
    rw [ih fun a ha => h a (.tail _ ha)]
    exact h action (.head _) s

theorem spares_hooks {hooks : List (Int × Action)} (h : ∀ hook ∈ hooks, Spares number hook.2) (round : Int) :
    Spares number (act ((hooks.filter (·.1 = round)).map (·.2))) := by
  refine spares_act fun action ha => ?_
  obtain ⟨hook, hhook, rfl⟩ := List.mem_map.1 ha
  exact h hook (List.mem_of_mem_filter hhook)

/-! ## The rounds of a run -/

section Interleave

variable {K U : Set LiteralSet} {e₀ : Engine} {goal : Clause} {limit abort : Option Int}
  {hooks : List (Int × Action)} {rounds : List Int} {p p' : Progress} {verdict : Verdict}

theorem ends_of_ends_pause {pause : Option Int} {laps : List Engine.Lap}
    (h : Engine.Ends e₀ limit pause (.decided verdict) laps e) :
    Engine.Ends e₀ limit none (.decided verdict) laps e := by
  cases h with
  | limit h hlimit => exact .limit h hlimit
  | refuted h hround hend => exact .refuted h hround hend
  | stalled h hround hend => exact .stalled h hround hend (by simp)

/-- **Hooks that leave the engine alone do not disturb a run.** -/
theorem ends_of_interleave (hstage : e₀.AtStage K U) (hgoal : e₀.goal = some goal)
    (hspares : ∀ hook ∈ hooks, Spares number hook.2)
    (hr : Engine.Rounds e₀ p.laps (p.session.engineAt number))
    (h : interleave number limit abort hooks rounds p = (.decided verdict, p')) :
    ∃ e, Engine.Ends e₀ limit none (.decided verdict) p'.laps e := by
  -- the invariant is that productive rounds have led to the engine of the session
  induction rounds generalizing p with
  | nil =>
    rw [interleave] at h
    generalize hp : (p.session.engineAt number).proceed limit none p.laps = result at h
    obtain ⟨stop, e, laps⟩ := result
    have hends := Engine.ends_of_proceed (hstage.rounds hr) hr hp
    obtain ⟨verdict', rfl⟩ := hends.exists_verdict
    cases h
    exact ⟨e, hends⟩
  | cons round rounds ih =>
    rw [interleave] at h
    generalize hp : (p.session.engineAt number).proceed limit (some round) p.laps = result at h
    obtain ⟨stop, e, laps⟩ := result
    have hends := Engine.ends_of_proceed (hstage.rounds hr) hr hp
    cases stop with
    | decided verdict' =>
      cases h
      exact ⟨e, ends_of_ends_pause hends⟩
    | paused stalled =>
      have hengine : ((act ((hooks.filter (·.1 = round)).map (·.2))
          (p.session.setEngine number e)).2).engineAt number = e := by
        rw [spares_hooks hspares, engineAt_setEngine]
        exact lt_size_of_goal (hr.frame.2.trans hgoal)
      dsimp only at h
      split at h
      · cases h
      cases hends with
      | stalledPause hr' hround hend =>
        cases h
        exact ⟨e, .stalled hr' hround hend (by simp)⟩
      | pause hr' =>
        refine ih ?_ h
        rw [hengine]
        exact hr'

/-- A run is given up only after the round after which it is to be. -/
theorem abort_of_interleave {round : Int} (h : (interleave number limit abort hooks rounds p).1 = .aborted round) :
    abort = some round := by
  induction rounds generalizing p with
  | nil => simp [interleave] at h
  | cons n rounds ih =>
    rw [interleave] at h
    dsimp only at h
    split at h
    · cases h
    split at h
    · rename_i habort
      cases h
      exact habort
    · split at h
      · cases h
      · exact ih h

/-- Neither the rounds nor the hooks change the goal or the knowledge base. -/
theorem frame_interleave (limit abort : Option Int) (hspares : ∀ hook ∈ hooks, Spares number hook.2)
    (rounds : List Int) (hgoal : (p.session.engineAt number).goal = some goal) :
    ((interleave number limit abort hooks rounds p).2.session.engineAt number).goal = some goal ∧
      ((interleave number limit abort hooks rounds p).2.session.engineAt number).knowledge =
        (p.session.engineAt number).knowledge := by
  have hproceed : ∀ (p : Progress) (pause : Option Int), (p.session.engineAt number).goal = some goal →
      let e := ((p.session.engineAt number).proceed limit pause p.laps).2.1
      (p.session.setEngine number e).engineAt number = e ∧ e.goal = some goal ∧
        e.knowledge = (p.session.engineAt number).knowledge := by
    intro p pause hgoal
    refine ⟨engineAt_setEngine (lt_size_of_goal hgoal), ?_, (Engine.steady_search limit pause _ _ _).knowledge⟩
    exact (Engine.persistent_goal.search limit pause _ _ _).trans hgoal
  -- as long as there is a goal the engine is one of the session, and what the rounds leave is kept in it
  induction rounds generalizing p with
  | nil =>
    obtain ⟨hengine, hframe⟩ := hproceed p none hgoal
    rw [interleave]
    dsimp only
    rwa [hengine]
  | cons round rounds ih =>
    obtain ⟨hengine, hframe⟩ := hproceed p (some round) hgoal
    have hacted := (spares_hooks hspares round _).trans hengine
    rw [interleave]
    dsimp only
    split
    · rwa [hengine]
    split
    · rwa [hacted]
    · split
      · rwa [hacted]
      · obtain ⟨hgoal', hknowledge'⟩ := ih (p := { p with
            session := (act _ (p.session.setEngine number _)).2, laps := _, answers := _ }) (hacted ▸ hframe.1)
        refine ⟨hgoal', hknowledge'.trans ?_⟩
        rw [hacted]
        exact hframe.2

end Interleave

/-- The answer at the end of a run tells the verdict that the record has. -/
theorem exists_finish (number : Nat) (options : RunOptions) (goal : Clause) (verdict : Verdict)
    (p : Progress) : ∃ outcome printed snapshots answers s' r,
      finish number options goal verdict p = (.run (.ok outcome) printed snapshots answers, s') ∧
      s'.runs.getLast? = some (number, r) ∧ outcome.verdict = r.verdict := by
  refine ⟨_, _, _, _, _, ⟨goal, (p.session.engineAt number).derivation.number, p.laps, verdict⟩,
    rfl, ?_, rfl⟩
  simp only [List.getLast?_append, List.getLast?_singleton, Option.some_or]

theorem eq_of_finish {options : RunOptions} {goal : Clause} {verdict : Verdict} {p : Progress}
    {r : Run} (h : (finish number options goal verdict p).2.runs.getLast? = some (number, r)) :
    r.goal = goal ∧ r.laps = p.laps ∧ r.verdict = verdict := by
  unfold finish at h
  simp only [List.getLast?_append, List.getLast?_singleton, Option.some_or, Option.some.injEq,
    Prod.mk.injEq, true_and] at h
  subst h
  exact ⟨rfl, rfl, rfl⟩

theorem run_of_no_goal (options : RunOptions) (hooks : List (Int × Action)) (h : s.engine.goal = none) :
    s.run options hooks = (runValue options (.error .noGoal) "" { session := s }, s) := by
  unfold Session.run
  rw [h]

/-- A run for a goal ends with a verdict or is given up. -/
theorem run_cases (options : RunOptions) {hooks : List (Int × Action)} {goal : Clause}
    (hgoal : s.engine.goal = some goal) (hspares : ∀ hook ∈ hooks, Spares s.current hook.2) :
    ∃ p : Progress, ((p.session.engineAt s.current).goal = some goal ∧
        (p.session.engineAt s.current).knowledge = s.engine.knowledge) ∧
      ((∃ verdict, s.run options hooks = finish s.current options goal verdict p) ∨
        ∃ round, options.abort = some round ∧ s.run options hooks =
          (runValue options (.error (.aborted round)) (Engine.told p.laps) p,
            p.session.setEngine s.current (p.session.engineAt s.current).reset)) := by
  have hbound := lt_size_of_goal hgoal
  have hstart := Engine.starts_start s.engine
  have hstarted : (s.setEngine s.current s.engine.start.2).engineAt s.current = s.engine.start.2 :=
    engineAt_setEngine hbound
  unfold Session.run
  rw [hgoal]
  dsimp only
  split
  · rename_i c d _
    refine ⟨_, ?_, .inl ⟨_, rfl⟩⟩
    rw [engineAt_setEngine hbound]
    refine ⟨hstart.goal.trans hgoal, ?_⟩
    rw [(Engine.steady_registerConflict _ c d).knowledge, hstart.knowledge]
  · refine ⟨(interleave s.current options.limit options.abort hooks (agenda hooks options.abort)
      { session := s.setEngine s.current s.engine.start.2 }).2, ?_, ?_⟩
    · have hframe := frame_interleave (p := { session := s.setEngine s.current s.engine.start.2 }) options.limit
        options.abort hspares (agenda hooks options.abort) (hstarted ▸ hstart.goal.trans hgoal)
      rwa [hstarted, hstart.knowledge] at hframe
    · split
      · exact .inl ⟨_, rfl⟩
      · rename_i round hend
        exact .inr ⟨round, abort_of_interleave hend, rfl⟩

end Session

namespace Engine

/-! ## The record of a run -/

/-- `r` is the record of a run of the engine that came to its end: of a run by itself, or of one in a
session, with hooks that leave the engine alone. -/
inductive Returns (e : Engine) (limit : Option Int) (r : Run) : Prop
  | alone {e' : Engine} (hrun : e.run limit = .ok (r, e'))
  | hooked {s s' : Session} {options : RunOptions} {hooks : List (Int × Session.Action)}
      {outcome : Outcome} {printed : Option String} {snapshots : Option (List View)}
      {answers : Option (List Answer)} (hengine : s.engine = e) (hlimit : options.limit = limit)
      (hspares : ∀ hook ∈ hooks, Session.Spares s.current hook.2)
      (hrun : s.run options hooks = (.run (.ok outcome) printed snapshots answers, s'))
      (hlast : s'.runs.getLast? = some (s.current, r)) (hverdict : outcome.verdict = r.verdict)

/-- **A run in a session returns** unless it is given up. -/
theorem exists_returns (s : Session) (options : RunOptions) {hooks : List (Int × Session.Action)}
    {goal : Clause} (hgoal : s.engine.goal = some goal) (habort : options.abort = none)
    (hspares : ∀ hook ∈ hooks, Session.Spares s.current hook.2) :
    ∃ r, s.engine.Returns options.limit r ∧
      (s.run options hooks).2.runs.getLast? = some (s.current, r) := by
  obtain ⟨p, -, ⟨verdict, hrun⟩ | ⟨round, habort', -⟩⟩ := Session.run_cases options hgoal hspares
  swap
  · rw [habort] at habort'
    cases habort'
  obtain ⟨outcome, printed, snapshots, answers, s', r, hfinish, hlast, hverdict⟩ :=
    Session.exists_finish s.current options goal verdict p
  rw [hfinish] at hrun
  refine ⟨r, .hooked rfl rfl hspares hrun hlast hverdict, ?_⟩
  rw [hrun]
  exact hlast

theorem Returns.runs {e : Engine} {limit : Option Int} {r : Run} (h : e.Settled)
    (hr : e.Returns limit r) : e.goal = some r.goal ∧ e.Runs limit r := by
  cases hr with
  | alone hrun =>
    obtain ⟨hgoal, hruns, -⟩ := h.run hrun
    exact ⟨hgoal, hruns⟩
  | @hooked s s' options hooks outcome _ _ _ hengine hlimit hspares hrun hlast =>
    subst hengine hlimit
    unfold Session.run at hrun
    split at hrun
    · cases hrun
    rename_i goal hgoal
    have hstart := starts_start s.engine
    have hstage := h.atStage hgoal
    have hbound := Session.lt_size_of_goal hgoal
    generalize hs : s.engine.start = started at hrun hstart hstage
    obtain ⟨copies, e₁⟩ := started
    dsimp only at hrun hstart hstage
    cases hc : findConflict [] copies with
    | some pair =>
      rw [hc] at hrun
      have hlast' := (congrArg (·.2.runs.getLast?) hrun).trans hlast
      obtain ⟨rfl, hlaps, hverdict⟩ := Session.eq_of_finish hlast'
      exact ⟨hgoal, .conflict (hstart.copies ▸ conflict_of_findConflict hc) hlaps hverdict⟩
    | none =>
      rw [hc] at hrun
      dsimp only at hrun
      generalize hi : Session.interleave s.current options.limit options.abort hooks
        (Session.agenda hooks options.abort) { session := s.setEngine s.current e₁ } = result at hrun
      obtain ⟨ending, p⟩ := result
      cases ending with
      | aborted round => cases hrun
      | decided verdict =>
        have hlast' := (congrArg (·.2.runs.getLast?) hrun).trans hlast
        obtain ⟨rfl, hlaps, hverdict⟩ := Session.eq_of_finish hlast'
        have hr₀ : Rounds e₁ [] ((s.setEngine s.current e₁).engineAt s.current) := by
          rw [Session.engineAt_setEngine hbound]
          exact .nil
        obtain ⟨e₂, hends⟩ :=
          Session.ends_of_interleave hstage (hstart.goal.trans hgoal) hspares hr₀ hi
        have hnone : ¬Conflict s.engine.knowledge.sets := by
          rw [← hstart.copies]
          exact findConflict_eq_none_iff.1 hc
        have hends' : Ends s.engine.start.2 options.limit none (.decided r.verdict) r.laps e₂ := by
          rw [hs, hlaps, hverdict]
          exact hends
        exact ⟨hgoal, .search hnone hends'⟩

end Engine

end Clausal
