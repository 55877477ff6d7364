import Clausal.Proofs.Aftermath
import Clausal.Proofs.Assistants
import Clausal.Proofs.Growth
import Clausal.Proofs.Pauses

/-!
# Edits in the middle of a run

A run works with copies of the knowledge base.  Hooks that add clauses to it, or remove some, do not touch them: all
that the run notices is that numbers are left out.  So the run goes as it would have gone without the hooks, and the
edits are there when it is over.

* `Edit.made plan n`: the edits that a plan has made after `n` rounds;
* `Engine.Amid e y`: the engine `y` is in the middle of a run from `e`.  Rounds and edits keep it so;
* `Session.Tracks`: a run with edits, alongside the run without;
* `Session.edits_leave_run`: what the run returns, and what it leaves behind.
-/

namespace Clausal

/-! ## Edits -/

/-- An edit of the knowledge base. -/
inductive Edit where
  | add (text : String)
  | remove (text : String)

namespace Edit

/-- The step that makes the edit. -/
def step : Edit → Step
  | .add text => .add text
  | .remove text => .remove text

/-- The hooks that make edits after the rounds that the plan gives. -/
def hooks (plan : List (Int × List Edit)) : List Hook :=
  plan.map fun entry => .mk entry.1 (entry.2.map step)

/-- The edits that are due after a round. -/
def due (plan : List (Int × List Edit)) (round : Int) : List Edit :=
  (plan.filter (·.1 = round)).flatMap (·.2)

/-- The edits that have been made when the first `n` rounds are over. -/
def made (plan : List (Int × List Edit)) (n : Nat) : List Edit :=
  (List.range n).flatMap fun i : Nat => due plan (i + 1)

variable {plan : List (Int × List Edit)} {n m : Nat}

theorem made_succ (plan : List (Int × List Edit)) (n : Nat) : made plan (n + 1) = made plan n ++ due plan (n + 1) := by
  simp [made, List.range_succ]

theorem due_eq_nil {round : Int} (h : ∀ entry ∈ plan, entry.1 ≠ round) : due plan round = [] := by
  have hnone : plan.filter (·.1 = round) = [] := by
    rw [List.filter_eq_nil_iff]
    intro entry hentry
    simpa using h entry hentry
  rw [due, hnone, List.flatMap_nil]

/-- Nothing is made in rounds that the plan does not give. -/
theorem made_of_none (hle : n ≤ m) (h : ∀ entry ∈ plan, (n : Int) < entry.1 → ¬entry.1 ≤ m) :
    made plan m = made plan n := by
  induction m, hle using Nat.le_induction with
  | base => rfl
  | succ m hle ih =>
    have hdue : due plan (m + 1) = [] := due_eq_nil fun entry hentry heq => h entry hentry (by omega) (by omega)
    rw [made_succ, hdue, List.append_nil]
    exact ih fun entry hentry hlt hle => h entry hentry hlt (by omega)

end Edit

namespace Engine

variable {e e' y x : Engine} {a : Edit}

/-- Makes an edit; one whose text cannot be read changes no clause. -/
def edit (e : Engine) : Edit → Engine
  | .add text => (e.add text).2
  | .remove text => (e.remove text).toOption.getD e

theorem edit_remove_of_error {text : String} {error : ParseError} (h : Clause.parse 0 text = .error error) :
    e.edit (.remove text) = e := by
  simp [edit, remove, h, Except.toOption]

theorem edit_remove_of_ok {text : String} {c : Clause} (h : Clause.parse 0 text = .ok c) :
    e.edit (.remove text) = { e with knowledge := e.knowledge.erase c.literals } := by
  simp [edit, remove, h, Except.toOption]

/-- An edit changes nothing but the knowledge base and the counter, which goes up if anything. -/
theorem edit_frame (e : Engine) (a : Edit) : ∃ (counter : Int) (knowledge : ClauseTable), e.counter ≤ counter ∧
    e.edit a = { e with counter, knowledge } := by
  cases a with
  | add text => exact ⟨e.counter + 1, _, by omega, add_frame e text⟩
  | remove text =>
    cases hparse : Clause.parse 0 text with
    | error error => exact ⟨e.counter, e.knowledge, le_refl _, edit_remove_of_error hparse⟩
    | ok c => exact ⟨e.counter, _, le_refl _, edit_remove_of_ok hparse⟩

theorem irredundant_edit (h : Irredundant e.knowledge.sets) (a : Edit) : Irredundant (e.edit a).knowledge.sets := by
  cases a with
  | add text => exact irredundant_add h text
  | remove text =>
    cases hparse : Clause.parse 0 text with
    | error error => rwa [edit_remove_of_error hparse]
    | ok c =>
      rw [edit_remove_of_ok hparse]
      exact irredundant_remove h (remove_eq_ok_iff.2 ⟨c, hparse, rfl⟩)

theorem mem_knowledge_edit {c : Clause} (h : c ∈ (e.edit a).knowledge.toList) :
    c ∈ e.knowledge.toList ∨ c.places = [] := by
  cases a with
  | add text => exact mem_knowledge_add h
  | remove text =>
    cases hparse : Clause.parse 0 text with
    | error error =>
      rw [edit_remove_of_error hparse] at h
      exact .inl h
    | ok b =>
      rw [edit_remove_of_ok hparse] at h
      exact .inl (List.mem_of_mem_filter h)

/-- What an edit makes of the knowledge base depends on the literals there, in their order. -/
theorem keys_edit (h : Irredundant e.knowledge.sets) (h' : Irredundant e'.knowledge.sets)
    (hkeys : e.knowledge.keys = e'.knowledge.keys) (a : Edit) :
    (e.edit a).knowledge.keys = (e'.edit a).knowledge.keys := by
  cases a with
  | add text =>
    show (e.add text).2.knowledge.keys = (e'.add text).2.knowledge.keys
    rw [keys_add h.antichain, keys_add h'.antichain, hkeys]
  | remove text =>
    cases hparse : Clause.parse 0 text with
    | error error => rwa [edit_remove_of_error hparse, edit_remove_of_error hparse]
    | ok c => rw [edit_remove_of_ok hparse, edit_remove_of_ok hparse, keys_erase, keys_erase, hkeys]

theorem Alike.refl (e : Engine) : e.Alike e := by
  have hsame : ∀ cs : List Clause, List.Forall₂ Clause.Alike cs cs :=
    fun cs => List.forall₂_same.2 fun _ _ => ⟨rfl, rfl, rfl⟩
  exact ⟨hsame _, hsame _, hsame _⟩

/-! ## Runs with edits -/

/-- The engine `y` is in the middle of a run from `e`: its derivation goes on from where the run began, and no clause of
the knowledge base has come to stand there. -/
structure Amid (e y : Engine) : Prop where
  recording : y.Recording e.start.2.derivation.toList e.counter
  places : ∀ c ∈ y.knowledge.toList, ∀ p ∈ c.places, p.derivation < y.derivation.number
  irredundant : Irredundant y.knowledge.sets
  goal : y.goal = e.goal

theorem amid_start (h : e.Filed) (ht : e.Tidy) : e.Amid e.start.2 := by
  obtain ⟨hknowledge, hnumber, -⟩ := frame_start e
  refine ⟨recording_start h, fun c hc p hp => ?_, ?_, (starts_start e).goal⟩
  · rw [hknowledge] at hc
    have := h.knowledge c hc p hp
    omega
  · rw [hknowledge]
    exact ht.irredundant

/-- The empty clause is registered at once where two clauses of the knowledge base are in conflict. -/
theorem Amid.conflict {c d : Clause} (h : e.Amid e.start.2) (hfiled : e.Filed)
    (hconflict : findConflict [] e.start.1 = some (c, d)) : e.Amid (e.start.2.registerConflict c d).2 ∧
      (e.start.2.registerConflict c d).2.HasEmpty (e.start.2.registerConflict c d).1.index := by
  obtain ⟨hrecorded, hempty⟩ := hfiled.recorded_conflict hconflict
  have hgrows : e.start.2.derivation.toList ⊆ (e.start.2.registerConflict c d).2.derivation.toList := by
    rw [toList_registerConflict]
    exact List.subset_append_left _ _
  refine ⟨⟨⟨hrecorded, ?_, ?_⟩, h.places, h.irredundant, h.goal⟩, hempty⟩
  · exact List.Subset.trans h.recording.working hgrows
  · exact List.Subset.trans h.recording.support hgrows

/-- A search goes on with the run. -/
theorem Amid.search (h : e.Amid y) {limit pause : Option Int} {fuel : Nat} {past laps : List Lap} {stop : Stop}
    {y' : Engine} (hs : search limit pause fuel y past = (stop, y', laps)) :
    e.Amid y' ∧ y'.knowledge = y.knowledge ∧ ∀ i, stop = .decided (.proven i) → y'.HasEmpty i := by
  obtain ⟨hrecording, hempty⟩ := keeps_search (fun h hround => h.round hround) h.recording hs
  have hsteady := steady_search limit pause fuel y past
  have hgoal := persistent_goal.search limit pause fuel y past
  rw [hs] at hsteady hgoal
  refine ⟨⟨hrecording, fun c hc p hp => ?_, ?_, hgoal.trans h.goal⟩, hsteady.knowledge, hempty⟩
  · rw [hsteady.knowledge] at hc
    rw [hsteady.number]
    exact h.places c hc p hp
  · rw [hsteady.knowledge]
    exact h.irredundant

/-- An edit leaves the run alone but for a number that may be left out. -/
theorem Amid.edit (h : e.Amid y) (a : Edit) : e.Amid (y.edit a) := by
  have hirredundant := irredundant_edit h.irredundant a
  have hmem : ∀ c ∈ (y.edit a).knowledge.toList, c ∈ y.knowledge.toList ∨ c.places = [] :=
    fun c hc => mem_knowledge_edit hc
  obtain ⟨counter, knowledge, hcounter, heq⟩ := edit_frame y a
  rw [heq] at hirredundant hmem ⊢
  refine ⟨⟨h.recording.record.skip hcounter, h.recording.working, h.recording.support⟩, fun c hc p hp => ?_,
    hirredundant, h.goal⟩
  rcases hmem c hc with hc | hplaces
  · exact h.places c hc p hp
  · simp [hplaces] at hp

theorem Amid.editAll (h : e.Amid y) (edits : List Edit) : e.Amid (edits.foldl Engine.edit y) := by
  induction edits generalizing y with
  | nil => exact h
  | cons a edits ih => exact ih (h.edit a)

theorem Alike.editAll (h : y.Alike x) (edits : List Edit) : (edits.foldl Engine.edit y).Alike x := by
  induction edits generalizing y with
  | nil => exact h
  | cons a edits ih =>
    obtain ⟨counter, knowledge, -, heq⟩ := edit_frame y a
    refine ih ?_
    rw [heq]
    exact ⟨h.support, h.working, h.derivation⟩

theorem keys_editAll (h : Irredundant e.knowledge.sets) (h' : Irredundant e'.knowledge.sets)
    (hkeys : e.knowledge.keys = e'.knowledge.keys) (edits : List Edit) :
    (edits.foldl Engine.edit e).knowledge.keys = (edits.foldl Engine.edit e').knowledge.keys := by
  induction edits generalizing e e' with
  | nil => exact hkeys
  | cons a edits ih => exact ih (irredundant_edit h a) (irredundant_edit h' a) (keys_edit h h' hkeys a)

theorem irredundant_editAll (h : Irredundant e.knowledge.sets) (edits : List Edit) :
    Irredundant (edits.foldl Engine.edit e).knowledge.sets := by
  induction edits generalizing e with
  | nil => exact h
  | cons a edits ih => exact ih (irredundant_edit h a)

/-- The end of a run leaves its derivation as it is. -/
theorem Amid.derivationAt_reset (h : e.Amid y) : y.reset.derivationAt y.derivation.number = y.derivation := by
  have hreset := derivation_reset h.places
  rw [derivationAt, hreset, if_pos rfl]

/-- What a run leaves depends on the literals of the knowledge base, in their order. -/
theorem Cleared.congr {e₁ : Engine} (h : e.Cleared e₁) (hkeys : e.knowledge.keys = e'.knowledge.keys) :
    e'.Cleared e₁ := by
  have hlength : e.knowledge.toList.length = e'.knowledge.toList.length := by
    simpa [ClauseTable.keys] using congrArg List.length hkeys
  exact ⟨h.keys.trans hkeys, hlength ▸ h.ids, hlength ▸ h.counter, h.goal, h.support, h.working⟩

/-- **Alike engines in the middle of runs from one engine come to the same result**, and show it in the same lines. -/
theorem Amid.agrees (goal : Clause) {verdict : Verdict} {laps laps' : List Lap} (h : e.Amid y) (h' : e.Amid x)
    (hb : Founded e.start.2.derivation.toList e.counter) (halike : y.Alike x) (hlaps : entries laps = entries laps')
    (hempty : ∀ i, verdict = .proven i → y.HasEmpty i) :
    (y.reset.outcome ⟨goal, y.derivation.number, laps, verdict⟩).Agrees
      (x.reset.outcome ⟨goal, x.derivation.number, laps', verdict⟩) := by
  refine ⟨rfl, hlaps, rfl, ?_⟩
  unfold outcome
  rw [h.derivationAt_reset, h'.derivationAt_reset]
  refine trace_of_recorded ?_ rfl hb h.recording.record h'.recording.record halike.derivation fun i hi => ?_
  · rfl
  · obtain ⟨c, hc, hindex, -⟩ := hempty i hi
    exact ⟨c, hc, hindex⟩

end Engine

namespace Session

variable {s s' : Session} {e x : Engine} {number : Nat} {plan : List (Int × List Edit)} {p p' : Progress}
  {n m : Nat} {past : List Engine.Lap} {limit : Option Int} {verdict : Verdict}

/-! ## Sessions with edits -/

/-- Edits have been made, of the present engine. -/
structure Edited (s : Session) (edits : List Edit) (s' : Session) : Prop where
  current : s'.current = s.current
  size : s'.engines.size = s.engines.size
  engine : s'.engine = edits.foldl Engine.edit s.engine

theorem Edited.trans {edits edits' : List Edit} {s'' : Session} (h : s.Edited edits s') (h' : s'.Edited edits' s'') :
    s.Edited (edits ++ edits') s'' := by
  refine ⟨h'.current.trans h.current, h'.size.trans h.size, ?_⟩
  rw [h'.engine, h.engine, List.foldl_append]

theorem edited_update (h : s.current < s.engines.size) (a : Edit) : s.Edited [a] (s.update (s.engine.edit a)) := by
  refine ⟨rfl, by simp [update, setEngine], ?_⟩
  exact engineAt_setEngine h

theorem edited_value (h : s.current < s.engines.size) (a : Edit) : s.Edited [a] (a.step.value s).2 := by
  cases a with
  | add text =>
    have hupdate : (s.add text).2 = s.update (s.engine.add text).2 := by
      unfold Session.add
      split <;> simp_all
    show s.Edited _ (s.add text).2
    rw [hupdate]
    exact edited_update h (.add text)
  | remove text =>
    show s.Edited _ (s.change (s.engine.remove text)).2
    cases hparse : Clause.parse 0 text with
    | error error =>
      have hremove : s.engine.remove text = .error error := by simp [Engine.remove, hparse]
      rw [hremove]
      refine ⟨rfl, rfl, ?_⟩
      exact (Engine.edit_remove_of_error hparse).symm
    | ok c =>
      have hupdate := edited_update h (.remove text)
      rw [Engine.edit_remove_of_ok hparse] at hupdate
      rw [Engine.remove_eq_ok_iff.2 ⟨c, hparse, rfl⟩]
      exact hupdate

theorem edited_performAll (h : s.current < s.engines.size) (edits : List Edit) :
    s.Edited edits (Step.performAll (edits.map Edit.step) s).2 := by
  induction edits generalizing s with
  | nil => exact ⟨rfl, rfl, rfl⟩
  | cons a edits ih =>
    have hfirst := edited_value h a
    have hrest := ih (hfirst.current ▸ hfirst.size ▸ h)
    exact hfirst.trans hrest

theorem actions_hooks (plan : List (Int × List Edit)) : Hook.actions (Edit.hooks plan) =
    plan.map fun entry => (entry.1, Step.performAll (entry.2.map Edit.step)) := by
  induction plan with
  | nil => rfl
  | cons entry plan ih =>
    rw [List.map_cons, ← ih]
    rfl

/-- What is done after a round are the edits that are due. -/
theorem edited_act (h : s.current < s.engines.size) (plan : List (Int × List Edit)) (round : Int) :
    s.Edited (Edit.due plan round)
      (act (((Hook.actions (Edit.hooks plan)).filter (·.1 = round)).map (·.2)) s).2 := by
  have hactions : ((Hook.actions (Edit.hooks plan)).filter (·.1 = round)).map (·.2) =
      (plan.filter (·.1 = round)).map fun entry => Step.performAll (entry.2.map Edit.step) := by
    rw [actions_hooks, List.filter_map, List.map_map]
    rfl
  rw [hactions]
  unfold Edit.due
  generalize plan.filter (·.1 = round) = entries
  induction entries generalizing s with
  | nil => exact ⟨rfl, rfl, rfl⟩
  | cons entry entries ih =>
    have hfirst := edited_performAll h entry.2
    have hrest := ih (hfirst.current ▸ hfirst.size ▸ h)
    rw [List.flatMap_cons]
    exact hfirst.trans hrest

/-- A run from `e` with edits has come as far as the run alone, which is at `x` after the rounds `past`; the edits of
the first `n` rounds have been made. -/
structure Tracks (e : Engine) (plan : List (Int × List Edit)) (number : Nat) (p : Progress) (n : Nat) (x : Engine)
    (past : List Engine.Lap) : Prop where
  current : p.session.current = number
  bound : number < p.session.engines.size
  amid : e.Amid (p.session.engineAt number)
  keys : (p.session.engineAt number).knowledge.keys = ((Edit.made plan n).foldl Engine.edit e).knowledge.keys
  alike : (p.session.engineAt number).Alike x
  entries : Engine.entries p.laps = Engine.entries past

namespace Tracks

theorem length (h : Tracks e plan number p n x past) : p.laps.length = past.length := by
  simpa [Engine.entries] using congrArg List.length h.entries

/-- Both runs go on in the same way. -/
theorem proceed (h : Tracks e plan number p n x past) {pause : Option Int} {stop : Engine.Stop} {y : Engine}
    {laps : List Engine.Lap} (hs : (p.session.engineAt number).proceed limit pause p.laps = (stop, y, laps)) :
    ∃ x' past', x.proceed limit pause past = (stop, x', past') ∧
      Tracks e plan number { p with session := p.session.setEngine number y, laps } n x' past' ∧
      ∀ i, stop = .decided (.proven i) → ((p.session.setEngine number y).engineAt number).HasEmpty i := by
  obtain ⟨hstop, halike, hentries⟩ := h.alike.proceed limit pause h.entries
  obtain ⟨hamid, hknowledge, hempty⟩ := h.amid.search hs
  have hengine : (p.session.setEngine number y).engineAt number = y := engineAt_setEngine h.bound
  rw [hs] at hstop halike hentries
  generalize hx : x.proceed limit pause past = result at hstop halike hentries
  obtain ⟨stop', x', past'⟩ := result
  dsimp only at hstop halike hentries
  subst hstop
  refine ⟨x', past', rfl, ⟨h.current, by simpa [setEngine] using h.bound, ?_, ?_, ?_, hentries⟩, ?_⟩
  · rwa [hengine]
  · rw [hengine, hknowledge]
    exact h.keys
  · rwa [hengine]
  · rwa [hengine]

/-- Rounds that the plan does not give. -/
theorem skip (h : Tracks e plan number p n x past) (hle : n ≤ m)
    (hnone : ∀ entry ∈ plan, (n : Int) < entry.1 → ¬entry.1 ≤ m) : Tracks e plan number p m x past := by
  refine ⟨h.current, h.bound, h.amid, ?_, h.alike, h.entries⟩
  rw [Edit.made_of_none hle hnone]
  exact h.keys

/-- The edits that are due after the next round of the plan leave the run alone. -/
theorem act (h : Tracks e plan number p n x past) (he : Irredundant e.knowledge.sets) (hlt : n < m)
    (hlater : ∀ entry ∈ plan, (n : Int) < entry.1 → m ≤ entry.1) (answers : List Answer) :
    Tracks e plan number { p with
      session := (Session.act (((Hook.actions (Edit.hooks plan)).filter (·.1 = (m : Int))).map (·.2)) p.session).2
      answers } m x past := by
  have hedited := edited_act (h.current ▸ h.bound) plan (m : Int)
  generalize (Session.act (((Hook.actions (Edit.hooks plan)).filter (·.1 = (m : Int))).map (·.2)) p.session).2 = s'
    at hedited
  have hengine : s'.engineAt number = (Edit.due plan m).foldl Engine.edit (p.session.engineAt number) := by
    have := hedited.engine
    rwa [engine, engine, hedited.current, h.current] at this
  have hmade : Edit.made plan m = Edit.made plan n ++ Edit.due plan m := by
    obtain ⟨k, rfl⟩ : ∃ k, m = k + 1 := ⟨m - 1, by omega⟩
    have hbefore : Edit.made plan k = Edit.made plan n := by
      refine Edit.made_of_none (by omega) fun entry hentry hn => ?_
      have := hlater entry hentry hn
      omega
    rw [Edit.made_succ, hbefore]
    rfl
  refine ⟨hedited.current.trans h.current, hedited.size ▸ h.bound, ?_, ?_, ?_, h.entries⟩
  · rw [hengine]
    exact h.amid.editAll _
  · rw [hengine, hmade, List.foldl_append]
    exact Engine.keys_editAll h.amid.irredundant (Engine.irredundant_editAll he _) h.keys _
  · rw [hengine]
    exact h.alike.editAll _

/-- **A run with edits comes to the verdict to which the run alone comes**, and when it does, the edits of the rounds
that are over have been made. -/
theorem interleave {K U : Set LiteralSet} {rounds : List Int} (hstage : e.start.2.AtStage K U)
    (he : Irredundant e.knowledge.sets) (h : Tracks e plan number p p.laps.length x past)
    (hr : Engine.Rounds e.start.2 past x) (hresumes : Engine.Resumes limit e.start.2 x past)
    (hsorted : rounds.Pairwise (· < ·)) (hahead : ∀ round ∈ rounds, (p.laps.length : Int) < round)
    (hplan : ∀ entry ∈ plan, (p.laps.length : Int) < entry.1 → entry.1 ∈ rounds)
    (hi : Session.interleave number limit none (Hook.actions (Edit.hooks plan)) rounds p = (.decided verdict, p')) :
    ∃ x' past', e.start.2.proceed limit none [] = (.decided verdict, x', past') ∧
      Tracks e plan number p' (Engine.completed verdict p'.laps.length) x' past' ∧
      ∀ i, verdict = .proven i → (p'.session.engineAt number).HasEmpty i := by
  induction rounds generalizing p x past with
  | nil =>
    rw [Session.interleave] at hi
    generalize hs : (p.session.engineAt number).proceed limit none p.laps = result at hi
    obtain ⟨stop, y, laps⟩ := result
    obtain ⟨x', past', hx, htracks, hempty⟩ := h.proceed hs
    obtain ⟨verdict', rfl⟩ := (Engine.ends_of_proceed (hstage.rounds hr) hr hx).exists_verdict
    cases hi
    refine ⟨x', past', hresumes.proceed hstage hr hx rfl, ?_, fun i hi => hempty i (congrArg Engine.Stop.decided hi)⟩
    refine htracks.skip (Engine.completed_search hs).1 fun entry hentry hlt => ?_
    cases hplan entry hentry hlt
  | cons round rounds ih =>
    obtain ⟨hfirst, hrest⟩ := List.pairwise_cons.1 hsorted
    -- what the plan still gives is after this round
    have hround : (p.laps.length : Int) < round := hahead round (by simp)
    have hlater : ∀ entry ∈ plan, (p.laps.length : Int) < entry.1 → round ≤ entry.1 := by
      intro entry hentry hlt
      rcases List.mem_cons.1 (hplan entry hentry hlt) with heq | hmem
      · exact heq.ge
      · exact (hfirst _ hmem).le
    rw [Session.interleave] at hi
    generalize hs : (p.session.engineAt number).proceed limit (some round) p.laps = result at hi
    obtain ⟨stop, y, laps⟩ := result
    obtain ⟨x', past', hx, htracks, hempty⟩ := h.proceed hs
    cases stop with
    | decided verdict' =>
      cases hi
      obtain ⟨hle, hlt⟩ := Engine.completed_search hs
      refine ⟨x', past', hresumes.proceed hstage hr hx rfl, ?_, fun i hi => hempty i (by rw [hi])⟩
      refine htracks.skip hle fun entry hentry hentry' => ?_
      show ¬entry.1 ≤ (Engine.completed verdict laps.length : Int)
      have := hlt round rfl hround
      have := hlater entry hentry hentry'
      omega
    | paused stalled =>
      have hends := Engine.ends_of_proceed (hstage.rounds hr) hr hx
      obtain rfl : round = laps.length := by
        have hlength : laps.length = past'.length := htracks.length
        rw [hlength]
        exact Option.some.inj hends.pause_eq
      have hacted := htracks.act he (Int.ofNat_lt.1 hround) hlater
      dsimp only at hi
      rw [if_neg (by simp)] at hi
      split at hi
      · rename_i hstalled
        subst hstalled
        cases hi
        exact ⟨x', past', hresumes.proceed hstage hr hx rfl, hacted _, by simp⟩
      · rename_i hnot
        obtain rfl : stalled = false := by simpa using hnot
        cases hends with
        | pause hr' _ =>
          refine ih (hacted _) hr' (hresumes.halt hx) hrest hfirst (fun entry hentry hlt => ?_) hi
          have hlt : (laps.length : Int) < entry.1 := hlt
          rcases List.mem_cons.1 (hplan entry hentry (by omega)) with heq | hmem
          · omega
          · exact hmem

end Tracks

/-- The run with edits returned `o` and led to the session `s'`, where the run alone returned `o'`: a result of the
same kind, with the same history and the same lines to show it, and with a derivation that differs in the numbers of
its clauses only.  The knowledge base is what the edits of the rounds that are over make of the one before the run, and
it is numbered from 1 on. -/
structure Undisturbed (s : Session) (plan : List (Int × List Edit)) (o : Outcome) (s' : Session) (o' : Outcome) :
    Prop where
  agrees : o.Agrees o'
  shown : ∃ lines, o.trace = .ok lines
  derivation : List.Forall₂ Clause.Alike o.derivation.toList o'.derivation.toList
  cleared : (Step.performAll ((Edit.made plan o.completed).map Edit.step) s).2.engine.Cleared s'.engine

theorem tracks_start {y : Engine} (h : s.current < s.engines.size) (hamid : s.engine.Amid y)
    (hknowledge : y.knowledge = s.engine.knowledge) (plan : List (Int × List Edit)) :
    Tracks s.engine plan s.current { session := s.setEngine s.current y } 0 y [] := by
  have hengine : (s.setEngine s.current y).engineAt s.current = y := engineAt_setEngine h
  refine ⟨rfl, by simpa [setEngine] using h, ?_, ?_, ?_, rfl⟩
  · rwa [hengine]
  · rw [hengine, hknowledge]
    rfl
  · rw [hengine]
    exact .refl y

/-- A run that ends before its first round. -/
theorem tracks_conflict {c d : Clause} (h : s.engine.Attained) (hbound : s.current < s.engines.size)
    (hconflict : Engine.findConflict [] s.engine.start.1 = some (c, d)) (plan : List (Int × List Edit)) :
    let y := (s.engine.start.2.registerConflict c d).2
    let p : Progress := { session := s.setEngine s.current y }
    let verdict : Verdict := .proven (s.engine.start.2.registerConflict c d).1.index
    s.engine.Amid y ∧ Tracks s.engine plan s.current p (Engine.completed verdict p.laps.length) y [] ∧
      ∀ i, verdict = .proven i → (p.session.engineAt s.current).HasEmpty i := by
  intro y p verdict
  obtain ⟨hamid, hempty⟩ := (Engine.amid_start h.filed h.tidy).conflict h.filed hconflict
  refine ⟨hamid, tracks_start hbound hamid (Engine.frame_start s.engine).1 plan, fun i hi => ?_⟩
  obtain rfl : (s.engine.start.2.registerConflict c d).1.index = i := Verdict.proven.inj hi
  rwa [engineAt_setEngine hbound]

/-- The rounds of a run with the edits of a whole plan. -/
theorem tracks_agenda {goal : Clause} (h : s.engine.Attained) (hgoal : s.engine.goal = some goal) (limit : Option Int)
    (plan : List (Int × List Edit)) : ∃ verdict p x past,
      interleave s.current limit none (Hook.actions (Edit.hooks plan)) (agenda (Hook.actions (Edit.hooks plan)) none)
        { session := s.setEngine s.current s.engine.start.2 } = (.decided verdict, p) ∧
      s.engine.start.2.proceed limit none [] = (.decided verdict, x, past) ∧
      Tracks s.engine plan s.current p (Engine.completed verdict p.laps.length) x past ∧
      ∀ i, verdict = .proven i → (p.session.engineAt s.current).HasEmpty i := by
  have hstart := tracks_start (lt_size_of_goal hgoal) (Engine.amid_start h.filed h.tidy)
    (Engine.frame_start s.engine).1 plan
  have hplan : ∀ entry ∈ plan, (0 : Int) < entry.1 → entry.1 ∈ agenda (Hook.actions (Edit.hooks plan)) none := by
    intro entry hentry hlt
    refine mem_agenda.2 ⟨hlt, .inl ?_⟩
    rw [actions_hooks, List.map_map]
    exact List.mem_map_of_mem hentry
  generalize hi : interleave s.current limit none (Hook.actions (Edit.hooks plan))
    (agenda (Hook.actions (Edit.hooks plan)) none) { session := s.setEngine s.current s.engine.start.2 } = result
  obtain ⟨ending, p⟩ := result
  cases ending with
  | aborted round =>
    have := abort_of_interleave (congrArg Prod.fst hi)
    cases this
  | decided verdict =>
    obtain ⟨x, past, hproceed, htracked, hempty⟩ := hstart.interleave (h.tidy.settled.atStage hgoal)
      h.tidy.irredundant .nil (.start _ _) (pairwise_agenda _ _) (fun round hround => (mem_agenda.1 hround).1) hplan hi
    exact ⟨verdict, p, x, past, rfl, hproceed, htracked, hempty⟩

/-- How a run with edits that has come to its verdict ends. -/
theorem Tracks.finish {goal : Clause} (options : RunOptions)
    (h : Tracks s.engine plan s.current p (Engine.completed verdict p.laps.length) x past) (hx : s.engine.Amid x)
    (hbound : s.current < s.engines.size) (hb : Founded s.engine.start.2.derivation.toList s.engine.counter)
    (hempty : ∀ i, verdict = .proven i → (p.session.engineAt s.current).HasEmpty i)
    (hshown : ∃ lines, (x.reset.outcome ⟨goal, x.derivation.number, past, verdict⟩).trace = .ok lines) :
    ∃ o printed snapshots answers s',
      Session.finish s.current options goal verdict p = (.run (.ok o) printed snapshots answers, s') ∧
      s.Undisturbed plan o s' (x.reset.outcome ⟨goal, x.derivation.number, past, verdict⟩) := by
  refine ⟨(p.session.engineAt s.current).reset.outcome
    ⟨goal, (p.session.engineAt s.current).derivation.number, p.laps, verdict⟩, _, _, _, _, rfl, ?_⟩
  have hagrees := h.amid.agrees goal hx hb h.alike h.entries hempty
  refine ⟨hagrees, ?_, ?_, ?_⟩
  · rw [hagrees.trace]
    exact hshown
  · simp only [Engine.outcome]
    rw [h.amid.derivationAt_reset, hx.derivationAt_reset]
    exact h.alike.derivation
  · have hcompleted : (Engine.outcome (p.session.engineAt s.current).reset
        ⟨goal, (p.session.engineAt s.current).derivation.number, p.laps, verdict⟩).completed =
        Engine.completed verdict p.laps.length := by
      simp [Outcome.completed, Engine.outcome, Run.history]
    have hengine : (Session.finish s.current options goal verdict p).2.engine =
        (p.session.engineAt s.current).reset := by
      show (p.session.setEngine s.current _).engineAt p.session.current = _
      rw [h.current]
      exact engineAt_setEngine h.bound
    rw [hcompleted, (edited_performAll hbound _).engine]
    show Engine.Cleared _ (Session.finish s.current options goal verdict p).2.engine
    rw [hengine]
    exact (Engine.cleared_reset rfl).congr h.keys

/-- **Edits in the middle of a run do not disturb it**, whatever they are and after which rounds they are made. -/
theorem edits_leave_run {goal : Clause} (h : s.engine.Attained) (hgoal : s.engine.goal = some goal)
    (options : RunOptions) (habort : options.abort = none) (plan : List (Int × List Edit)) :
    ∃ o printed snapshots answers s' r e',
      s.run options (Hook.actions (Edit.hooks plan)) = (.run (.ok o) printed snapshots answers, s') ∧
      s.engine.run options.limit = .ok (r, e') ∧ s.Undisturbed plan o s' (e'.outcome r) := by
  have hbound := lt_size_of_goal hgoal
  have hfounded := Engine.founded_start h.filed h.tidy hgoal
  have hshown := fun (r : Run) (e' : Engine) (hrun : s.engine.pursue goal options.limit = (r, e')) =>
    Engine.exists_trace h.filed h.tidy hgoal hrun
  unfold Session.run
  rw [hgoal, Engine.run_eq hgoal, habort]
  dsimp only
  cases hconflict : Engine.findConflict [] s.engine.start.1 with
  | some pair =>
    obtain ⟨c, d⟩ := pair
    obtain ⟨hamid, htracks, hempty⟩ := tracks_conflict h hbound hconflict plan
    rw [Engine.pursue_of_conflict hconflict] at hshown ⊢
    obtain ⟨o, printed, snapshots, answers, s', hfinish, hundisturbed⟩ :=
      htracks.finish options hamid hbound hfounded hempty (hshown _ _ rfl)
    exact ⟨o, printed, snapshots, answers, s', _, _, hfinish, rfl, hundisturbed⟩
  | none =>
    obtain ⟨verdict, p, x, past, hi, hproceed, htracks, hempty⟩ := tracks_agenda h hgoal options.limit plan
    have hx := ((Engine.amid_start h.filed h.tidy).search hproceed).1
    have hverdict : (s.engine.start.2.proceed options.limit none []).1 = .decided verdict := by rw [hproceed]
    rw [Engine.pursue_of_search hconflict hverdict, hproceed] at hshown ⊢
    rw [hi]
    obtain ⟨o, printed, snapshots, answers, s', hfinish, hundisturbed⟩ :=
      htracks.finish options hx hbound hfounded hempty (hshown _ _ rfl)
    exact ⟨o, printed, snapshots, answers, s', _, _, hfinish, rfl, hundisturbed⟩

/-- A clause is removed of which the proof makes use; an edit cannot be read; and one is never made, since the third
round finds the empty clause. -/
theorem edits_leave_run_removal :
    let s := (Step.performAll [.add "p v q", .add "~p v r", .add "~q v r", .goal "r"] {}).2
    let plan : List (Int × List Edit) :=
      [(2, [.add "p"]), (1, [.remove "p v q", .add "s v"]), (3, [.remove "~p v r"])]
    s.engine.Attained ∧ (∃ goal, s.engine.goal = some goal) ∧ ∃ o printed snapshots answers s' r e',
      s.run {} (Hook.actions (Edit.hooks plan)) = (.run (.ok o) printed snapshots answers, s') ∧
      s.engine.run none = .ok (r, e') ∧ s.Undisturbed plan o s' (e'.outcome r) ∧ r.history.length = 3 ∧
      s'.engine.names = ["~p v r", "~q v r", "p"] := by
  intro s plan
  have h : s.engine.Attained := ⟨_, rfl⟩
  have hgoal : s.engine.goal.isSome = true := by decide +kernel
  have hnames : (s.run {} (Hook.actions (Edit.hooks plan))).2.engine.names = ["~p v r", "~q v r", "p"] := by
    decide +kernel
  have hlength : (s.engine.run none).toOption.map (·.1.history.length) = some 3 := by decide +kernel
  clear_value s
  obtain ⟨goal, hgoal⟩ := Option.isSome_iff_exists.1 hgoal
  obtain ⟨o, printed, snapshots, answers, s', r, e', hrun, halone, hundisturbed⟩ :=
    edits_leave_run h hgoal {} rfl plan
  rw [hrun] at hnames
  rw [halone] at hlength
  exact ⟨h, ⟨goal, hgoal⟩, o, printed, snapshots, answers, s', r, e', hrun, halone, hundisturbed,
    Option.some.inj hlength, hnames⟩

end Session

end Clausal
