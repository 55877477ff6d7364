import Clausal.Proofs.Frame
import Clausal.Proofs.Hooks
import Clausal.Session.Perform

/-!
# What holds of the engines of a session

A session takes any steps, also in the hooks of a run, and one of these may be a run of an engine that is in
the middle of another run.  What holds of an engine between its runs is therefore shown together with
something weaker, which holds of it at any moment.

* `Engine.Kept P`: the calls that are made one at a time keep `P`;
* `Engine.Invariant busy idle`: all calls keep `busy`, and an engine that is in no run is `idle`;
* `Session.idle_engineAt`: then every engine of a session is idle, whatever the steps were;
* `Session.Calls`: a run calls its hooks on a session, and all engines of it are `busy` then (`Session.Holds.called`);
* `Engine.Attained`: the engines that sessions lead to.
-/

namespace Clausal

theorem ClauseTable.mem_put_of_ne {t : ClauseTable} {c d : Clause} (hd : d ∈ t.toList)
    (hne : d.literals ≠ c.literals) : d ∈ (t.put c).toList := by
  cases h : t.contains c.literals with
  | false =>
    rw [toList_put_of_new h]
    exact List.mem_append_left _ hd
  | true =>
    rw [toList_put_of_contains h]
    exact List.mem_map.2 ⟨d, hd, if_neg hne⟩

namespace Engine

/-! ## Calls made one at a time -/

/-- The calls keep `P`.  Resolving by hand is taken apart: it counts on, and it registers clauses that are in no
derivation, which stay where they were found. -/
structure Kept (P : Engine → Prop) : Prop where
  add : ∀ {e} (text : String), P e → P (e.add text).2
  remove : ∀ {e e'} {text : String}, P e → e.remove text = .ok e' → P e'
  setGoal : ∀ {e e'} {text : String}, P e → e.setGoal text = .ok e' → P e'
  count : ∀ {e} {n : Int}, P e → e.counter ≤ n → P { e with counter := n }
  register : ∀ {e} {c : Clause}, P e → c.places = [] → P (e.register c).2
  enlistKnown : ∀ {e} {c : Clause}, P e → c ∈ e.knowledge.toList → c.places = [] →
    P { (e.register c).2 with knowledge := e.knowledge.put (e.register c).1 }
  enlistSupport : ∀ {e} {c : Clause}, P e → c ∈ e.support.toList → c.places = [] →
    P { (e.register c).2 with support := e.support.put (e.register c).1 }

/-- A clause of the source that is in no derivation is where the source says. -/
def Source.Within (e : Engine) : Source → Prop
  | .knowledge c => c.index? = none → c ∈ e.knowledge.toList
  | .support c => c.index? = none → c ∈ e.support.toList
  | .elsewhere _ => True

theorem mem_of_element {α : Type} {xs : List α} {i : Int} {x : α} (h : element xs i = .ok x) :
    x ∈ xs := by
  unfold element at h
  split at h
  · rename_i y hy
    cases h
    obtain ⟨p, -, hp⟩ := Option.bind_eq_some_iff.1 hy
    exact List.mem_of_getElem? hp
  · cases h

theorem within_find {e : Engine} {a : Operand} {source : Source} (h : e.find a = .ok source) :
    source.Within e := by
  cases a with
  | knowledge i =>
    cases hel : element e.knowledge.toList i with
    | error fault => simp [find, hel] at h
    | ok c =>
      simp only [find, hel, Except.map_ok, Except.ok.injEq] at h
      subst h
      exact fun _ => mem_of_element hel
  | support i =>
    cases hel : element e.support.toList i with
    | error fault => simp [find, hel] at h
    | ok c =>
      simp only [find, hel, Except.map_ok, Except.ok.injEq] at h
      subst h
      exact fun _ => mem_of_element hel
  | derivation i =>
    cases hel : e.derivation.get i with
    | error fault => simp [find, hel] at h
    | ok c =>
      simp only [find, hel, Except.map_ok, Except.ok.injEq] at h
      subst h
      trivial
  | made clause =>
    cases clause with
    | error error => cases h
    | ok c =>
      cases h
      trivial

section Resolve

variable {P : Engine → Prop} {e e' : Engine} {source first second : Source}

theorem Kept.enlist (h : Kept P) (hP : P e) (hs : source.Within e) : P (e.enlist source).2 := by
  unfold Engine.enlist
  cases hi : source.clause.index? with
  | some i => exact hP
  | none =>
    have hplaces := Clause.index?_eq_none_iff.1 hi
    cases source with
    | knowledge c => exact h.enlistKnown hP (hs hi) hplaces
    | support c => exact h.enlistSupport hP (hs hi) hplaces
    | elsewhere c => exact h.register hP hplaces

/-- After the first source is enlisted, the second one is still where it was found, or registered. -/
theorem within_again (first : Source) (hsecond : second.Within e) :
    (again first (e.enlist first).1 second).Within (e.enlist first).2 := by
  cases hi : first.clause.index? with
  | some i =>
    have he : e.enlist first = (first.clause, e) := by
      unfold Engine.enlist
      rw [hi]
    rw [he]
    cases second <;> cases first <;> simp only [again] <;> try exact hsecond
    all_goals
      split
      · intro hn
        exact absurd (hi.symm.trans hn) (by simp)
      · exact hsecond
  | none =>
    have hreg : ∀ c : Clause, (e.register c).1.index? ≠ none := by
      intro c
      simp [Engine.register, Derivation.placed, Clause.index?]
    unfold Engine.enlist
    rw [hi]
    cases second <;> cases first <;> simp only [again] <;> try exact hsecond
    all_goals
      split
      · exact fun hn => absurd hn (hreg _)
      · rename_i hne
        exact fun hn => ClauseTable.mem_put_of_ne (hsecond hn) hne

theorem Kept.registerAll (h : Kept P) (hP : P e) {cs : List Clause} (hcs : ∀ c ∈ cs, c.places = []) :
    P (e.registerAll cs).2 := by
  induction cs generalizing e with
  | nil => exact hP
  | cons c cs ih =>
    rw [registerAll_cons]
    exact ih (h.register hP (hcs c (by simp))) fun d hd => hcs d (by simp [hd])

theorem Kept.link (h : Kept P) (hP : P e) (c d : Clause) : P (e.link c d).2 := by
  refine h.registerAll (h.count hP ?_) fun r hr => Clause.places_number hr
  omega

theorem Kept.resolve (h : Kept P) (hP : P e) {a : Operand} {b : Option Operand} {rs : List Clause}
    (hres : e.resolve a b = .ok (rs, e')) : P e' := by
  unfold Engine.resolve at hres
  cases hfirst : e.find a with
  | error fault =>
    rw [hfirst] at hres
    cases hres
  | ok first =>
    have hone := h.enlist hP (within_find hfirst)
    cases b with
    | none =>
      simp only [hfirst, bind, Except.bind, pure, Except.pure, Except.ok.injEq] at hres
      have hlink := h.link hone (e.enlist first).1 (e.enlist first).1
      rwa [hres] at hlink
    | some b =>
      cases hsecond : e.find b with
      | error fault =>
        simp only [hfirst, hsecond] at hres
        cases hres
      | ok second =>
        simp only [hfirst, hsecond, bind, Except.bind, pure, Except.pure, Except.ok.injEq] at hres
        have htwo := h.enlist hone (within_again first (within_find hsecond))
        have hlink := h.link htwo (e.enlist first).1
          ((e.enlist first).2.enlist (again first (e.enlist first).1 second)).1
        rwa [hres] at hlink

end Resolve

/-! ## Runs -/

/-- Calls and rounds keep `busy`; what is done between the runs keeps `idle`, and the end of a run brings it
about. -/
structure Invariant (busy idle : Engine → Prop) : Prop where
  duringRuns : Kept busy
  betweenRuns : Kept idle
  busy_of_idle : ∀ {e}, idle e → busy e
  fresh : idle {}
  start : ∀ {e}, busy e → busy e.start.2
  round : ∀ {e} (n : Nat), busy e → busy (e.round n).2
  conflict : ∀ {e} (c d : Clause), busy e → busy (e.registerConflict c d).2
  reset : ∀ {e}, busy e → idle e.reset

namespace Invariant

variable {busy idle : Engine → Prop} {e : Engine}

theorem search (h : Invariant busy idle) {limit pause : Option Int} {fuel : Nat} {past : List Lap}
    (he : busy e) : busy (Engine.search limit pause fuel e past).2.1 := by
  induction fuel generalizing e past with
  | zero => exact he
  | succ fuel ih =>
    have hround := h.round (past.length + 1) he
    rw [Engine.search]
    split
    · exact he
    · dsimp only
      split
      · exact hround
      · split <;> exact hround
      · split
        · exact hround
        · exact ih hround

theorem pursue (h : Invariant busy idle) (he : busy e) (goal : Clause) (limit : Option Int) :
    idle (e.pursue goal limit).2 := by
  unfold Engine.pursue
  have hstart := h.start he
  dsimp only
  split
  · exact h.reset (h.conflict _ _ hstart)
  · exact h.reset (h.search hstart)

theorem addAll (h : Invariant busy idle) (he : idle e) (texts : List String) :
    idle (e.addAll texts).2 := by
  induction texts generalizing e with
  | nil => exact he
  | cons text texts ih =>
    have hadd := h.betweenRuns.add text he
    rw [Engine.addAll]
    generalize e.add text = result at hadd
    obtain ⟨_ | _, e'⟩ := result
    · exact hadd
    · exact ih hadd

theorem restore (h : Invariant busy idle) {saved : Saved} (hrestore : saved.restore = .ok e) :
    idle e := by
  obtain ⟨texts, e', -, hofTexts, -, rfl⟩ := exists_of_restore hrestore
  have hadd := h.addAll h.fresh texts
  rw [addAll_of_ofTexts hofTexts] at hadd
  exact h.betweenRuns.count hadd (by omega)

theorem load (h : Invariant busy idle) {text : String} (hload : Engine.load text = .ok e) : idle e := by
  unfold Engine.load at hload
  split at hload
  · cases hload
  · exact h.restore hload

end Invariant

/-- What holds of the sets of the knowledge base, and of some of them if it holds of all, is kept if adding a clause
keeps it. -/
theorem kept_of_sets {P : Set LiteralSet → Prop} (hsubset : ∀ {X Y}, Y ⊆ X → P X → P Y)
    (hadd : ∀ {e : Engine} (text : String), P e.knowledge.sets → P (e.add text).2.knowledge.sets) :
    Kept fun e => P e.knowledge.sets where
  add text h := hadd text h
  remove h hremove := by
    obtain ⟨c, -, rfl⟩ := remove_eq_ok_iff.1 hremove
    refine hsubset ?_ h
    rw [ClauseTable.sets_erase]
    exact Set.sdiff_subset
  setGoal h hgoal := by
    obtain ⟨c, -, rfl⟩ := setGoal_eq_ok_iff.1 hgoal
    exact h
  count h _ := h
  register h _ := h
  enlistKnown {e c} h hc _ := by
    have hmem : c.literals ∈ e.knowledge.sets := ClauseTable.literals_mem_sets hc
    show P (e.knowledge.put _).sets
    rw [ClauseTable.sets_put]
    exact (Set.insert_eq_of_mem hmem).symm ▸ h
  enlistSupport h _ _ := h

theorem invariant_of_sets {P : Set LiteralSet → Prop} (hempty : P ∅) (hkept : Kept fun e => P e.knowledge.sets) :
    Invariant (fun e => P e.knowledge.sets) (fun e => P e.knowledge.sets) where
  duringRuns := hkept
  betweenRuns := hkept
  busy_of_idle h := h
  fresh := by
    rwa [show ({} : Engine).knowledge.sets = ∅ from ClauseTable.sets_eq_empty_iff.2 rfl]
  start {e} h := by
    rw [(frame_start e).1]
    exact h
  round {e} n h := by
    rw [(steady_round e n).knowledge]
    exact h
  conflict {e} c d h := by
    rw [(steady_registerConflict e c d).knowledge]
    exact h
  reset {e} h := by
    rw [sets_knowledge_reset]
    exact h

end Engine

/-! ## Sessions -/

namespace Session

/-- Every engine of the session is `busy`, and those whose numbers are not in `inRun` are `idle`. -/
def Holds (busy idle : Engine → Prop) (inRun : Set Nat) (s : Session) : Prop :=
  ∀ n, busy (s.engineAt n) ∧ (n ∉ inRun → idle (s.engineAt n))

section Holds

variable {busy idle : Engine → Prop} {inRun : Set Nat} {s : Session} {e : Engine} {number : Nat}

theorem engineAt_setEngine_of_ne {n : Nat} (h : n ≠ number) :
    (s.setEngine number e).engineAt n = s.engineAt n := by
  simp only [engineAt, setEngine, Array.getD_eq_getD_getElem?]
  rw [Array.getElem?_setIfInBounds_ne h.symm]

theorem engineAt_of_le {n : Nat} (h : s.engines.size ≤ n) : s.engineAt n = {} := by
  simp [engineAt, h]

theorem engineAt_setEngine_self (s : Session) (number : Nat) (e : Engine) :
    (s.setEngine number e).engineAt number = e ∨ (s.setEngine number e).engineAt number = {} := by
  by_cases h : number < s.engines.size
  · exact .inl (engineAt_setEngine h)
  · refine .inr (engineAt_of_le ?_)
    simp only [setEngine, Array.size_setIfInBounds]
    omega

/-- One engine changes.  A number that no engine has stands for a new one. -/
theorem Holds.setEngine (h : Engine.Invariant busy idle) (hs : s.Holds busy idle inRun)
    (hbusy : busy e) (hidle : number ∉ inRun → idle e) :
    (s.setEngine number e).Holds busy idle inRun := by
  intro n
  by_cases hn : n = number
  · subst hn
    rcases engineAt_setEngine_self s n e with he | he
    · rw [he]
      exact ⟨hbusy, hidle⟩
    · rw [he]
      exact ⟨h.busy_of_idle h.fresh, fun _ => h.fresh⟩
  · rw [engineAt_setEngine_of_ne hn]
    exact hs n

theorem Holds.replace (h : Engine.Invariant busy idle) (hs : s.Holds busy idle inRun) (he : idle e) :
    (s.replace e).Holds busy idle inRun := by
  intro n
  have hget : (s.replace e).engineAt n = if n = s.engines.size then e else s.engineAt n := by
    simp only [engineAt, Session.replace, Array.getD_eq_getD_getElem?, Array.getElem?_push]
    split <;> simp_all
  rw [hget]
  split
  · exact ⟨h.busy_of_idle he, fun _ => he⟩
  · exact hs n

/-- A call keeps the session as it keeps the engine. -/
theorem Holds.update (h : Engine.Invariant busy idle) (hs : s.Holds busy idle inRun)
    (hcall : ∀ {P : Engine → Prop}, Engine.Kept P → P s.engine → P e) :
    (s.update e).Holds busy idle inRun :=
  hs.setEngine h (hcall h.duringRuns (hs s.current).1) fun hn => hcall h.betweenRuns ((hs s.current).2 hn)

theorem Holds.begin (h : Engine.Invariant busy idle) (hs : s.Holds busy idle inRun) (hbusy : busy e) :
    (s.setEngine number e).Holds busy idle (insert number inRun) := by
  refine Holds.setEngine h (fun n => ⟨(hs n).1, fun hn => (hs n).2 fun hn' => hn (.inr hn')⟩) hbusy ?_
  exact fun hn => absurd (.inl rfl) hn

theorem Holds.end (h : Engine.Invariant busy idle) (hs : s.Holds busy idle (insert number inRun)) :
    (s.setEngine number (s.engineAt number).reset).Holds busy idle inRun := by
  have hidle := h.reset (hs number).1
  intro n
  by_cases hn : n = number
  · subst hn
    rcases engineAt_setEngine_self s n (s.engineAt n).reset with he | he
    · rw [he]
      exact ⟨h.busy_of_idle hidle, fun _ => hidle⟩
    · rw [he]
      exact ⟨h.busy_of_idle h.fresh, fun _ => h.fresh⟩
  · rw [engineAt_setEngine_of_ne hn]
    refine ⟨(hs n).1, fun hn' => (hs n).2 ?_⟩
    rintro (he | he)
    · exact hn he
    · exact hn' he

/-- The action keeps what holds of a session, whichever engines are in a run. -/
def Keeps (busy idle : Engine → Prop) (action : Action) : Prop :=
  ∀ inRun s, Holds busy idle inRun s → Holds busy idle inRun (action s).2

theorem keeps_act {actions : List Action} (hactions : ∀ action ∈ actions, Keeps busy idle action) :
    Keeps busy idle (act actions) := by
  intro inRun s hs
  induction actions generalizing s with
  | nil => exact hs
  | cons action actions ih =>
    exact ih (fun a ha => hactions a (.tail _ ha)) _ (hactions action (.head _) inRun s hs)

/-- What is to be done after a round. -/
def due (hooks : List (Int × Action)) (round : Int) : List Action := (hooks.filter (·.1 = round)).map (·.2)

section Hooks

variable {hooks : List (Int × Action)} {limit abort : Option Int}

theorem keeps_due (hhooks : ∀ hook ∈ hooks, Keeps busy idle hook.2) (round : Int) :
    ∀ action ∈ due hooks round, Keeps busy idle action := by
  intro action ha
  obtain ⟨hook, hhook, rfl⟩ := List.mem_map.1 ha
  exact hhooks hook (List.mem_of_mem_filter hhook)

theorem Holds.goOn (h : Engine.Invariant busy idle) (hs : s.Holds busy idle (insert number inRun))
    (limit pause : Option Int) (laps : List Engine.Lap) :
    (s.setEngine number ((s.engineAt number).proceed limit pause laps).2.1).Holds busy idle (insert number inRun) :=
  hs.setEngine h (h.search (hs number).1) fun hn => absurd (.inl rfl) hn

/-- In the course of the rounds of a run, and of those on the agenda, something is done on the session `s'`. -/
inductive Called (number : Nat) (limit abort : Option Int) (hooks : List (Int × Action)) :
    List Int → Session → List Engine.Lap → Session → Prop
  | now {round : Int} {rounds : List Int} {s : Session} {laps laps' : List Engine.Lap} {stalled : Bool} {e : Engine}
      {done rest : List Action} {action : Action}
      (hpause : (s.engineAt number).proceed limit (some round) laps = (.paused stalled, e, laps'))
      (hdue : due hooks round = done ++ action :: rest) :
      Called number limit abort hooks (round :: rounds) s laps (act done (s.setEngine number e)).2
  | later {round : Int} {rounds : List Int} {s s' : Session} {laps laps' : List Engine.Lap} {e : Engine}
      (hpause : (s.engineAt number).proceed limit (some round) laps = (.paused false, e, laps'))
      (habort : abort ≠ some round)
      (hcalled : Called number limit abort hooks rounds (act (due hooks round) (s.setEngine number e)).2 laps' s') :
      Called number limit abort hooks (round :: rounds) s laps s'

/-- A run of the present engine calls one of its hooks on the session `s'`. -/
def Calls (options : RunOptions) (hooks : List (Int × Action)) (s s' : Session) : Prop :=
  s.engine.goal ≠ none ∧ Engine.findConflict [] s.engine.start.1 = none ∧
    Called s.current options.limit options.abort hooks (agenda hooks options.abort)
      (s.setEngine s.current s.engine.start.2) [] s'

theorem Holds.called (h : Engine.Invariant busy idle) (hhooks : ∀ hook ∈ hooks, Keeps busy idle hook.2)
    {rounds : List Int} {laps : List Engine.Lap} {s' : Session}
    (hcalled : Called number limit abort hooks rounds s laps s') (hs : s.Holds busy idle (insert number inRun)) :
    s'.Holds busy idle (insert number inRun) := by
  induction hcalled with
  | @now round rounds s laps laps' stalled e done rest action hpause hdue =>
    have hround := hs.goOn h limit (some round) laps
    rw [hpause] at hround
    refine keeps_act (fun action ha => ?_) _ _ hround
    exact keeps_due hhooks round action (hdue ▸ List.mem_append_left _ ha)
  | @later round rounds s s' laps laps' e hpause habort hcalled ih =>
    have hround := hs.goOn h limit (some round) laps
    rw [hpause] at hround
    exact ih (keeps_act (keeps_due hhooks round) _ _ hround)

/-- The rounds of a run and the hooks after them. -/
theorem Holds.interleave (h : Engine.Invariant busy idle) (hhooks : ∀ hook ∈ hooks, Keeps busy idle hook.2)
    (limit abort : Option Int) (rounds : List Int) {p : Progress}
    (hp : p.session.Holds busy idle (insert number inRun)) :
    (interleave number limit abort hooks rounds p).2.session.Holds busy idle (insert number inRun) := by
  induction rounds generalizing p with
  | nil => exact hp.goOn h limit none p.laps
  | cons round rounds ih =>
    rw [Session.interleave]
    have hround := hp.goOn h limit (some round) p.laps
    have hacted := keeps_act (keeps_due hhooks round) _ _ hround
    dsimp only
    split
    · exact hround
    · split
      · exact hacted
      · split
        · exact hacted
        · exact ih hacted

end Hooks

theorem Holds.finish (h : Engine.Invariant busy idle) {options : RunOptions} {goal : Clause}
    {verdict : Verdict} {p : Progress} (hp : p.session.Holds busy idle (insert number inRun)) :
    (finish number options goal verdict p).2.Holds busy idle inRun :=
  hp.end h

theorem Holds.run (h : Engine.Invariant busy idle) {hooks : List (Int × Action)}
    (hhooks : ∀ hook ∈ hooks, Keeps busy idle hook.2) (options : RunOptions)
    (hs : s.Holds busy idle inRun) : (s.run options hooks).2.Holds busy idle inRun := by
  have hstart := h.start (hs s.current).1
  unfold Session.run
  split
  · exact hs
  dsimp only
  split
  · exact Holds.finish h (hs.begin h (h.conflict _ _ hstart))
  · have hrounds := Holds.interleave h hhooks options.limit options.abort
      (agenda hooks options.abort) (p := { session := s.setEngine s.current s.engine.start.2 }) (hs.begin h hstart)
    split
    · exact Holds.finish h hrounds
    · exact hrounds.end h

theorem Holds.add (h : Engine.Invariant busy idle) (hs : s.Holds busy idle inRun) (text : String) :
    (s.add text).2.Holds busy idle inRun := by
  have hupdate := hs.update h (e := (s.engine.add text).2) fun hkept hP => hkept.add text hP
  unfold Session.add
  generalize s.engine.add text = result at hupdate
  obtain ⟨_ | _, e⟩ := result <;> exact hupdate

theorem Holds.change (h : Engine.Invariant busy idle) (hs : s.Holds busy idle inRun)
    {result : Except ParseError Engine}
    (hcall : ∀ {P : Engine → Prop} {e}, Engine.Kept P → result = .ok e → P s.engine → P e) :
    (s.change result).2.Holds busy idle inRun := by
  cases result with
  | error error => exact hs
  | ok e => exact hs.update h fun hkept hP => hcall hkept rfl hP

theorem Holds.exchange (h : Engine.Invariant busy idle) (hs : s.Holds busy idle inRun)
    {result : Except Fault Engine} (hidle : ∀ {e}, result = .ok e → idle e) :
    (s.exchange result).2.Holds busy idle inRun := by
  cases result with
  | error fault => exact hs
  | ok e => exact hs.replace h (hidle rfl)

theorem Holds.resolve (h : Engine.Invariant busy idle) (hs : s.Holds busy idle inRun) (a : Operand)
    (b : Option Operand) : (s.resolve a b).2.Holds busy idle inRun := by
  unfold Session.resolve
  split
  · rename_i hres
    exact hs.update h fun hkept hP => hkept.resolve hP hres
  · exact hs

end Holds

end Session

section Steps

variable {busy idle : Engine → Prop}

-- the induction goes through the steps, and for a run through the steps of its hooks
mutual

theorem Step.holds_value (h : Engine.Invariant busy idle) :
    ∀ (step : Step) {inRun : Set Nat} {s : Session}, s.Holds busy idle inRun →
      (step.value s).2.Holds busy idle inRun
  | .add text, _, _, hs => hs.add h text
  | .remove _, _, _, hs => hs.change h fun hkept hresult hP => hkept.remove hP hresult
  | .goal _, _, _, hs => hs.change h fun hkept hresult hP => hkept.setGoal hP hresult
  | .run options hooks, _, _, hs => hs.run h (Hook.keeps_actions h hooks) options
  | .resolve a b, _, _, hs => hs.resolve h a b
  | .parentsOf _, _, _, hs => hs
  | .derivation, _, _, hs => hs
  | .saved, _, _, hs => hs
  | .restore _, _, _, hs => hs.exchange h h.restore
  | .save, _, _, hs => hs
  | .reload, _, _, hs => hs.exchange h h.load
  | .load _, _, _, hs => hs.exchange h h.load
  | .state, _, _, hs => hs
  | .describe _, _, _, hs => hs
  | .proof _, _, _, hs => hs
  | .history _, _, _, hs => hs
  | .graph _, _, _, hs => hs

theorem Step.holds_performAll (h : Engine.Invariant busy idle) :
    ∀ (steps : List Step) {inRun : Set Nat} {s : Session}, s.Holds busy idle inRun →
      (Step.performAll steps s).2.Holds busy idle inRun
  | [], _, _, hs => hs
  | step :: rest, _, _, hs => Step.holds_performAll h rest (Step.holds_value h step hs)

theorem Hook.keeps_actions (h : Engine.Invariant busy idle) :
    ∀ (hooks : List Hook), ∀ hook ∈ Hook.actions hooks, Session.Keeps busy idle hook.2
  | [], hook, hmem => absurd hmem (by simp [Hook.actions])
  | .mk round steps :: rest, hook, hmem => by
    rw [Hook.actions] at hmem
    rcases List.mem_cons.1 hmem with rfl | hmem
    · exact fun _ _ hs => Step.holds_performAll h steps hs
    · exact Hook.keeps_actions h rest hook hmem

end

theorem Session.engineAt_new (n : Nat) : ({} : Session).engineAt n = {} := by
  cases n <;> simp [engineAt]

/-- **Every engine of a session is idle** after any steps. -/
theorem Session.idle_engineAt (h : Engine.Invariant busy idle) (steps : List Step) (number : Nat) :
    idle ((Step.performAll steps {}).2.engineAt number) := by
  have hs : ({} : Session).Holds busy idle ∅ := by
    intro n
    rw [engineAt_new]
    exact ⟨h.busy_of_idle h.fresh, fun _ => h.fresh⟩
  exact (Step.holds_performAll h steps hs number).2 (Set.notMem_empty _)

end Steps

namespace Engine

/-- The engines that sessions lead to: by any calls, calls that fail and runs with hooks included. -/
def Attained (e : Engine) : Prop := ∃ steps : List Step, (Step.performAll steps {}).2.engine = e

theorem Attained.idle {busy idle : Engine → Prop} (h : Invariant busy idle) {e : Engine}
    (he : e.Attained) : idle e := by
  obtain ⟨steps, rfl⟩ := he
  exact Session.idle_engineAt h steps _

end Engine

end Clausal
