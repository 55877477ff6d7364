import Clausal.Proofs.Links

/-!
# What a refutation rests on

A run resolves copies of the knowledge base and the support, never the clauses of the knowledge base themselves.  So
the positions on which its derivation builds hold clauses that nobody else has a hand on, also if hooks resolve by hand
in the middle of the run, or set another goal.

* `Engine.Grounded G e`: the working set and the support stand at the positions `G`, which are closed under parents and
  where no clause of the knowledge base stands;
* `Engine.invariant_rooted`: there are such positions between any calls;
* `Session.rests_run`: the empty clause that a run finds stands at one of them.
-/

namespace Clausal

/-- There is a clause at each of the positions, and its parents are at such positions, too. -/
def Derivation.ClosedOn (d : Derivation) (G : Set Nat) : Prop :=
  ∀ i ∈ G, ∃ c, d.toList[i]? = some c ∧ ∀ x ∈ c.parents, ∃ j ∈ G, x = (j : Int)

/-- The clause was registered last at one of the positions. -/
def Clause.At (G : Set Nat) (c : Clause) : Prop := ∃ i ∈ G, c.index? = some i

/-- The clause does not stand at the positions `G` of the derivation with the number. -/
def Clause.Avoids (number : Nat) (G : Set Nat) (c : Clause) : Prop :=
  ∀ p ∈ c.places, p.derivation = number → p.position ∉ G

/-- The positions that `new` clauses get. -/
def Derivation.next (d : Derivation) (new : List Clause) : Set Nat :=
  {i | d.toList.length ≤ i ∧ i < d.toList.length + new.length}

theorem Clause.At.mono {G G' : Set Nat} {c : Clause} (h : c.At G) (hG : G ⊆ G') : c.At G' := by
  obtain ⟨i, hi, hindex⟩ := h
  exact ⟨i, hG hi, hindex⟩

theorem Clause.At.exists_index {G : Set Nat} {c : Clause} (h : c.At G) : ∃ j ∈ G, c.index = (j : Int) := by
  obtain ⟨i, hi, hindex⟩ := h
  exact ⟨i, hi, by rw [Clause.index, hindex]⟩

namespace Derivation

variable {d d' : Derivation} {G : Set Nat} {new : List Clause}

theorem ClosedOn.lt (h : d.ClosedOn G) {i : Nat} (hi : i ∈ G) : i < d.toList.length := by
  obtain ⟨c, hc, -⟩ := h i hi
  exact lt_of_getElem? hc

theorem ClosedOn.append (h : d.ClosedOn G) (hd : d'.toList = d.toList ++ new) : d'.ClosedOn G := by
  intro i hi
  obtain ⟨c, hc, hparents⟩ := h i hi
  refine ⟨c, ?_, hparents⟩
  rw [hd]
  exact getElem?_append_of_some _ hc

/-- New clauses whose parents are at the positions, or new themselves. -/
theorem ClosedOn.grow (h : d.ClosedOn G) (hd : d'.toList = d.toList ++ new)
    (hnew : ∀ c ∈ new, ∀ x ∈ c.parents, ∃ j ∈ G ∪ d.next new, x = (j : Int)) : d'.ClosedOn (G ∪ d.next new) := by
  rintro i (hi | ⟨hle, hlt⟩)
  · obtain ⟨c, hc, hparents⟩ := h.append hd i hi
    refine ⟨c, hc, fun x hx => ?_⟩
    obtain ⟨j, hj, hxj⟩ := hparents x hx
    exact ⟨j, .inl hj, hxj⟩
  · have hi : i - d.toList.length < new.length := by omega
    have hc := List.getElem?_eq_getElem hi
    refine ⟨new[i - d.toList.length], ?_, hnew _ (List.mem_of_getElem? hc)⟩
    rw [hd, List.getElem?_append_right hle, hc]

end Derivation

namespace Engine

variable {e e' : Engine} {G : Set Nat} {new : List Clause} {c s : Clause} {n : Nat} {report : RoundReport}

/-- The clause is asserted and in no derivation. -/
def Unregistered (c : Clause) : Prop := c.places = [] ∧ c.parents = []

/-- The derivation builds on the positions `G`: what the next round can resolve stands there, or is yet to be
registered, and no clause of the knowledge base does. -/
structure Grounded (G : Set Nat) (e : Engine) : Prop where
  closed : e.derivation.ClosedOn G
  knowledge : ∀ c ∈ e.knowledge.toList, c.Avoids e.derivation.number G
  support : ∀ s ∈ e.support.toList, Unregistered s ∨ s.At G
  working : ∀ c ∈ e.working.toList, c.At G

/-- What is known is shown, and the derivation builds on some positions. -/
structure Rooted (e : Engine) : Prop where
  shown : e.Shown
  grounded : ∃ G, e.Grounded G

/-- The name is that of a position on which the derivation builds. -/
def RestsOn (e : Engine) (x : Int) : Prop := ∃ G, e.Grounded G ∧ ∃ j ∈ G, x = (j : Int)

/-- The derivation grows elsewhere. -/
theorem Grounded.keep (h : e.Grounded G) (hnumber : e'.derivation.number = e.derivation.number)
    (hd : e'.derivation.toList = e.derivation.toList ++ new)
    (hknowledge : ∀ c ∈ e'.knowledge.toList, c ∈ e.knowledge.toList ∨
      ∀ p ∈ c.places, e.derivation.toList.length ≤ p.position)
    (hsupport : ∀ s ∈ e'.support.toList, s ∈ e.support.toList ∨ Unregistered s)
    (hworking : e'.working = e.working) : e'.Grounded G := by
  refine ⟨h.closed.append hd, fun c hc p hp hpn hG => ?_, fun s hs => ?_, ?_⟩
  · rcases hknowledge c hc with hc | hc
    · exact h.knowledge c hc p hp (hpn.trans hnumber) hG
    · have := hc p hp
      have := h.closed.lt hG
      omega
  · rcases hsupport s hs with hs | hs
    · exact h.support s hs
    · exact .inl hs
  · rw [hworking]
    exact h.working

/-- The derivation grows by clauses on which it then builds as well. -/
theorem Grounded.grow (h : e.Grounded G) (hshown : e.Shown) (hsteady : e.Steady e')
    (hd : e'.derivation.toList = e.derivation.toList ++ new)
    (hnew : ∀ c ∈ new, ∀ x ∈ c.parents, ∃ j ∈ G ∪ e.derivation.next new, x = (j : Int))
    (hsupport : ∀ s ∈ e'.support.toList, s ∈ e.support.toList ∨ s.At (e.derivation.next new))
    (hworking : ∀ c ∈ e'.working.toList, c ∈ e.working.toList ∨ c.At (e.derivation.next new)) :
    e'.Grounded (G ∪ e.derivation.next new) := by
  refine ⟨h.closed.grow hd hnew, fun c hc p hp hpn => ?_, fun s hs => ?_, fun c hc => ?_⟩
  · rw [hsteady.knowledge] at hc
    rw [hsteady.number] at hpn
    rintro (hG | ⟨hle, -⟩)
    · exact h.knowledge c hc p hp hpn hG
    · have := lt_of_getElem? ((hshown.knowledge c hc p hp).2 hpn)
      rw [Derivation.keys, List.length_map] at this
      omega
  · rcases hsupport s hs with hs | hs
    · exact (h.support s hs).imp_right fun hat => hat.mono Set.subset_union_left
    · exact .inr (hs.mono Set.subset_union_right)
  · rcases hworking c hc with hc | hc
    · exact (h.working c hc).mono Set.subset_union_left
    · exact hc.mono Set.subset_union_right

/-! ## Calls -/

theorem Grounded.register (h : e.Grounded G) (hplaces : c.places = []) : (e.register c).2.Grounded G :=
  h.keep rfl (toList_register_of_places e hplaces) (fun _ hd => .inl hd) (fun _ hs => .inl hs) rfl

theorem at_next_register (e : Engine) (hplaces : c.places = []) :
    (e.register c).1.At (e.derivation.next [(e.register c).1]) := by
  refine ⟨e.derivation.toList.length, ⟨le_refl _, by simp⟩, ?_⟩
  rw [Clause.index?, places_register e hplaces, Derivation.nextPlace, Derivation.size_eq]
  rfl

theorem Rooted.enlistSupport (h : e.Rooted) (hc : c ∈ e.support.toList) (hplaces : c.places = []) :
    Rooted { (e.register c).2 with support := e.support.put (e.register c).1 } := by
  obtain ⟨G, hG⟩ := h.grounded
  have hparents : c.parents = [] := by
    rcases hG.support c hc with hc | ⟨i, -, hindex⟩
    · exact hc.2
    · rw [Clause.index?_eq_none_iff.2 hplaces] at hindex
      cases hindex
  refine ⟨kept_shown.enlistSupport h.shown hc hplaces, G ∪ e.derivation.next [(e.register c).1], ?_⟩
  have hsteady := persistent_steady.register e hplaces
  refine hG.grow h.shown ⟨hsteady.knowledge, hsteady.number, hsteady.earlier⟩ (toList_register_of_places e hplaces)
    ?_ ?_ ?_
  · intro b hb x hx
    rw [List.mem_singleton.1 hb] at hx
    have hnone : x ∈ c.parents := hx
    simp [hparents] at hnone
  · intro s hs
    rcases ClauseTable.mem_or_eq_of_mem_put hs with hs | rfl
    · exact .inl hs
    · exact .inr (at_next_register e hplaces)
  · exact fun b hb => .inl hb

theorem kept_rooted : Kept Rooted where
  add {e} text h := by
    obtain ⟨G, hG⟩ := h.grounded
    refine ⟨kept_shown.add text h.shown, G, ?_⟩
    have hframe := add_frame e text
    refine ⟨by rw [hframe]; exact hG.closed, fun c hc p hp => ?_, by rw [hframe]; exact hG.support,
      by rw [hframe]; exact hG.working⟩
    rw [hframe]
    rcases mem_knowledge_add hc with hc | hplaces
    · exact hG.knowledge c hc p hp
    · simp [hplaces] at hp
  remove {e e' text} h hremove := by
    obtain ⟨G, hG⟩ := h.grounded
    refine ⟨kept_shown.remove h.shown hremove, G, ?_⟩
    obtain ⟨c, -, rfl⟩ := remove_eq_ok_iff.1 hremove
    exact ⟨hG.closed, fun b hb => hG.knowledge b (List.mem_of_mem_filter hb), hG.support, hG.working⟩
  setGoal {e e' text} h hgoal := by
    obtain ⟨G, hG⟩ := h.grounded
    refine ⟨kept_shown.setGoal h.shown hgoal, G, ?_⟩
    obtain ⟨c, -, rfl⟩ := setGoal_eq_ok_iff.1 hgoal
    refine ⟨hG.closed, hG.knowledge, fun s hs => ?_, hG.working⟩
    rw [toList_support_aim] at hs
    obtain ⟨hparents, hplaces⟩ := places_negationUnits hs
    exact .inl ⟨hplaces, hparents⟩
  count h hn := by
    obtain ⟨G, hG⟩ := h.grounded
    exact ⟨kept_shown.count h.shown hn, G, hG.closed, hG.knowledge, hG.support, hG.working⟩
  register h hplaces := by
    obtain ⟨G, hG⟩ := h.grounded
    exact ⟨h.shown.register hplaces, G, hG.register hplaces⟩
  enlistKnown {e c} h hc hplaces := by
    obtain ⟨G, hG⟩ := h.grounded
    refine ⟨kept_shown.enlistKnown h.shown hc hplaces, G, ?_⟩
    refine hG.keep rfl (toList_register_of_places e hplaces) (fun b hb => ?_) (fun _ hs => .inl hs) rfl
    -- the clause is registered at the end
    rcases ClauseTable.mem_or_eq_of_mem_put hb with hb | rfl
    · exact .inl hb
    · refine .inr fun p hp => ?_
      rw [places_register e hplaces, List.mem_singleton] at hp
      rw [hp, Derivation.nextPlace, Derivation.size_eq]
  enlistSupport h hc hplaces := h.enlistSupport hc hplaces

/-- Nothing is left of a run on which its derivation could build. -/
theorem Shown.rooted_reset (h : e.Shown) : e.reset.Rooted := by
  refine ⟨h.reset, ∅, ?_, ?_, ?_, ?_⟩
  · rintro i ⟨⟩
  · exact fun _ _ _ _ _ => Set.notMem_empty _
  · simp [Engine.reset]
  · simp [Engine.reset]

theorem invariant_rooted : Invariant Shown Rooted where
  duringRuns := kept_shown
  betweenRuns := kept_rooted
  busy_of_idle h := h.shown
  fresh := ⟨invariant_shown.fresh, ∅, by rintro i ⟨⟩, by simp, by simp, by simp⟩
  start h := invariant_shown.start h
  round n h := invariant_shown.round n h
  conflict c d h := invariant_shown.conflict c d h
  reset h := h.rooted_reset

/-! ## Runs -/

theorem Filed.at_start (h : e.Filed) (hc : c ∈ e.start.2.derivation.toList) :
    c.At {i | i < e.start.2.derivation.toList.length} := by
  obtain ⟨i, hi⟩ := List.mem_iff_getElem?.1 hc
  exact ⟨i, lt_of_getElem? hi, (opens_start h).index i c hi⟩

theorem Filed.grounded_start (h : e.Filed) :
    e.start.2.Grounded {i | i < e.start.2.derivation.toList.length} := by
  have ho := opens_start h
  obtain ⟨hknowledge, hnumber, -⟩ := frame_start e
  refine ⟨fun i hi => ?_, fun c hc p hp hpn => ?_, fun s hs => .inr (h.at_start ?_),
    fun c hc => h.at_start (ho.working_subset hc)⟩
  · have hc := List.getElem?_eq_getElem (Set.mem_ofPred_eq ▸ hi)
    refine ⟨_, hc, fun x hx => ?_⟩
    rw [ho.parents _ (List.mem_of_getElem? hc)] at hx
    cases hx
  · rw [hknowledge] at hc
    have := h.knowledge c hc p hp
    omega
  · rw [ho.toList]
    exact List.mem_append_right _ hs

theorem Grounded.restsOn_conflict {d : Clause} (h : e.Grounded G) (hshown : e.Shown) (hc : c.At G) (hd : d.At G) :
    (e.registerConflict c d).2.RestsOn (e.registerConflict c d).1.index := by
  have hat : (e.registerConflict c d).1.At (e.derivation.next [(e.registerConflict c d).1]) :=
    at_next_register { e with counter := e.counter + 1 } rfl
  refine ⟨_, h.grow hshown (steady_registerConflict e c d) (toList_registerConflict e c d) (fun b hb x hx => ?_)
    (fun _ hs => .inl hs) fun _ hw => .inl hw, (hat.mono Set.subset_union_right).exists_index⟩
  rw [List.mem_singleton.1 hb] at hx
  have hparents : x ∈ [c.index, d.index] := hx
  rcases List.mem_cons.1 hparents with rfl | hx
  · exact (hc.mono Set.subset_union_left).exists_index
  · rw [List.mem_singleton.1 hx]
    exact (hd.mono Set.subset_union_left).exists_index

/-- The empty clause of a conflict rests on the copies of the two units. -/
theorem Filed.restsOn_conflict {d : Clause} (h : e.Filed) (hshown : e.Shown)
    (hfind : findConflict [] e.start.1 = some (c, d)) :
    (e.start.2.registerConflict c d).2.RestsOn (e.start.2.registerConflict c d).1.index := by
  obtain ⟨hc, hd⟩ := h.mem_of_conflict hfind
  exact h.grounded_start.restsOn_conflict (invariant_shown.start hshown) (h.at_start hc) (h.at_start hd)

/-- **A round builds on what it registers**, the empty clause included. -/
theorem Rooted.round (h : e.Rooted) (hround : e.round n = (report, e')) :
    e'.Rooted ∧ ∀ i, report.ending = .refuted i → e'.RestsOn i := by
  obtain ⟨G, hG⟩ := h.grounded
  obtain ⟨new, hy⟩ := yields_round hround
  have hshown : e'.Shown := by
    have := invariant_shown.round n h.shown
    rwa [hround] at this
  have hat : ∀ c ∈ new, c.At (e.derivation.next new) := by
    intro c hc
    obtain ⟨i, hi⟩ := List.mem_iff_getElem?.1 hc
    refine ⟨e.derivation.toList.length + i, ⟨by omega, ?_⟩, ?_⟩
    · have := lt_of_getElem? hi
      omega
    · rw [Clause.index?, hy.places i c hi]
      rfl
  have hnew : ∀ c ∈ new, ∀ x ∈ c.parents, ∃ j ∈ G ∪ e.derivation.next new, x = (j : Int) := by
    intro c hc x hx
    cases hy.offspring c hc with
    | enlisted henlists =>
      obtain ⟨s, hs, hplaces, -, hparents⟩ := henlists
      rcases hG.support s hs with hs | ⟨i, -, hindex⟩
      · rw [hparents, hs.2] at hx
        cases hx
      · rw [Clause.index?_eq_none_iff.2 hplaces] at hindex
        cases hindex
    | @resolvent p q hp hq hparents =>
      have hp : p.At (G ∪ e.derivation.next new) := (hG.working p hp).mono Set.subset_union_left
      have hq : q.At (G ∪ e.derivation.next new) := by
        rcases hq with ⟨hq, hplaces⟩ | ⟨hq, -⟩
        · exact ((hG.support q hq).resolve_left fun hu => hplaces hu.1).mono Set.subset_union_left
        · exact (hat q hq).mono Set.subset_union_right
      rw [hparents] at hx
      rcases List.mem_cons.1 hx with rfl | hx
      · exact hp.exists_index
      · rw [List.mem_singleton.1 hx]
        exact hq.exists_index
  have hgrounded := hG.grow h.shown hy.steady hy.toList hnew (fun s hs => (hy.support s hs).imp_right (hat s))
    fun c hc => (hy.working c hc).imp_right (hat c)
  refine ⟨⟨hshown, _, hgrounded⟩, fun i hi => ⟨_, hgrounded, ?_⟩⟩
  obtain ⟨c, hc, rfl, -⟩ := hy.refuted i hi
  exact ((hat c hc).mono Set.subset_union_right).exists_index

theorem Rooted.search {limit pause : Option Int} {fuel : Nat} {past laps : List Lap} {stop : Stop} (h : e.Rooted)
    (hs : search limit pause fuel e past = (stop, e', laps)) :
    e'.Rooted ∧ ∀ i, stop = .decided (.proven i) → e'.RestsOn i :=
  keeps_search (fun h hround => h.round hround) h hs

/-- An engine that has just been made proves nothing. -/
theorem search_fresh {limit pause : Option Int} {fuel : Nat} {past : List Lap} (i : Int) :
    (search limit pause fuel ({} : Engine) past).1 ≠ .decided (.proven i) := by
  cases fuel with
  | zero => simp [Engine.search]
  | succ fuel =>
    rw [Engine.search]
    split
    · simp
    · have hstalled : (({} : Engine).round (past.length + 1)).1.ending = .stalled := rfl
      simp only [hstalled]
      split <;> simp

theorem reset_fresh : ({} : Engine).reset = {} := rfl

end Engine

namespace Session

variable {s s' : Session} {number : Nat} {inRun : Set Nat} {limit abort : Option Int} {hooks : List (Int × Action)}
  {rounds : List Int} {p p' : Progress} {verdict : Verdict}

/-- Going on with the search of the engine with a number. -/
theorem Holds.proceed (hp : p.session.Holds Engine.Shown Engine.Rooted inRun) (hin : number ∉ inRun)
    {pause : Option Int} {stop : Engine.Stop} {e : Engine} {laps : List Engine.Lap}
    (hsearch : (p.session.engineAt number).proceed limit pause p.laps = (stop, e, laps)) :
    (p.session.setEngine number e).Holds Engine.Shown Engine.Rooted inRun ∧
      ∀ i, stop = .decided (.proven i) → ((p.session.setEngine number e).engineAt number).RestsOn i := by
  obtain ⟨hrooted, hrests⟩ := ((hp number).2 hin).search hsearch
  refine ⟨hp.setEngine Engine.invariant_rooted hrooted.shown fun _ => hrooted, fun i hi => ?_⟩
  by_cases hsize : number < p.session.engines.size
  · rw [engineAt_setEngine hsize]
    exact hrests i hi
  · -- a number that no engine has
    rw [engineAt_of_le (Nat.le_of_not_lt hsize)] at hsearch
    have hstop : (({} : Engine).proceed limit pause p.laps).1 = stop := congrArg Prod.fst hsearch
    exact absurd (hstop.trans hi) (Engine.search_fresh i)

/-- The rounds of a run and the hooks after them. -/
theorem rests_interleave (hhooks : ∀ hook ∈ hooks, Keeps Engine.Shown Engine.Rooted hook.2) (hin : number ∉ inRun)
    (hp : p.session.Holds Engine.Shown Engine.Rooted inRun)
    (h : interleave number limit abort hooks rounds p = (.decided verdict, p')) :
    p'.session.Holds Engine.Shown Engine.Rooted inRun ∧
      ∀ i, verdict = .proven i → (p'.session.engineAt number).RestsOn i := by
  induction rounds generalizing p with
  | nil =>
    rw [interleave] at h
    generalize hsearch : (p.session.engineAt number).proceed limit none p.laps = result at h
    obtain ⟨stop, e, laps⟩ := result
    obtain ⟨hholds, hrests⟩ := hp.proceed hin hsearch
    dsimp only at h
    cases h
    refine ⟨hholds, fun i hi => hrests i ?_⟩
    cases stop with
    | decided verdict => rw [← hi]
    | paused stalled => cases hi
  | cons round rounds ih =>
    rw [interleave] at h
    generalize hsearch : (p.session.engineAt number).proceed limit (some round) p.laps = result at h
    obtain ⟨stop, e, laps⟩ := result
    obtain ⟨hholds, hrests⟩ := hp.proceed hin hsearch
    cases stop with
    | decided verdict' =>
      cases h
      exact ⟨hholds, fun i hi => hrests i (by rw [hi])⟩
    | paused stalled =>
      have hacted := keeps_act (keeps_due hhooks round) inRun _ hholds
      dsimp only at h
      split at h
      · cases h
      split at h
      · cases h
        exact ⟨hacted, by simp⟩
      · exact ih hacted h

section Result

variable {options : RunOptions} {hooks : List Hook} {goal : Clause} {o : Outcome} {printed : Option String}
  {snapshots : Option (List Engine.View)} {answers : Option (List Answer)} {r : Run}

/-- What a run that has come to its verdict returns and leaves. -/
theorem engine_of_finish (h : finish number options goal verdict p = (.run (.ok o) printed snapshots answers, s'))
    (hlast : s'.runs.getLast? = some (number, r)) : s'.engineAt number = (p.session.engineAt number).reset ∧
      r = ⟨goal, (p.session.engineAt number).derivation.number, p.laps, verdict⟩ ∧
      o = (p.session.engineAt number).reset.outcome r := by
  obtain ⟨hvalue, rfl⟩ := Prod.ext_iff.1 h
  simp only [finish, List.getLast?_append, List.getLast?_singleton, Option.some_or, Option.some.injEq,
    Prod.mk.injEq, true_and] at hlast
  subst hlast
  simp only [finish, runValue, Value.run.injEq, Except.ok.injEq] at hvalue
  refine ⟨?_, rfl, hvalue.1.symm⟩
  by_cases hsize : number < p.session.engines.size
  · exact engineAt_setEngine hsize
  · have hfresh : p.session.engineAt number = {} := engineAt_of_le (Nat.le_of_not_lt hsize)
    rw [hfresh, Engine.reset_fresh]
    apply engineAt_of_le
    simpa [finish, setEngine] using hsize

/-- **The empty clause that a run finds rests on its derivation.**  The run begins with asserted clauses as its support;
`x` is the engine when it ends, before the knowledge base is numbered anew. -/
theorem rests_run (hs : ∀ n, (s.engineAt n).Shown) (hasserted : ∀ c ∈ s.engine.support.toList, c.parents = [])
    (hrun : s.run options (Hook.actions hooks) = (.run (.ok o) printed snapshots answers, s'))
    (hlast : s'.runs.getLast? = some (s.current, r)) :
    ∃ x : Engine, x.Shown ∧ s'.engineAt s.current = x.reset ∧ r.derivation = x.derivation.number ∧
      o = x.reset.outcome r ∧ ∀ i, r.verdict = .proven i → x.RestsOn i := by
  have hfinish : ∀ {goal : Clause} {verdict : Verdict} {p : Progress}, (p.session.engineAt s.current).Shown →
      (∀ i, verdict = .proven i → (p.session.engineAt s.current).RestsOn i) →
      finish s.current options goal verdict p = (.run (.ok o) printed snapshots answers, s') →
      ∃ x : Engine, x.Shown ∧ s'.engineAt s.current = x.reset ∧ r.derivation = x.derivation.number ∧
        o = x.reset.outcome r ∧ ∀ i, r.verdict = .proven i → x.RestsOn i := by
    intro goal verdict p hshown hrests hf
    obtain ⟨hengine, rfl, ho⟩ := engine_of_finish hf hlast
    exact ⟨p.session.engineAt s.current, hshown, hengine, rfl, ho, hrests⟩
  have hshown := hs s.current
  have hfiled : s.engine.Filed := ⟨hshown.archived, fun c hc => ⟨hasserted c hc, hshown.support c hc⟩⟩
  have hstart : s.engine.start.2.Rooted := ⟨Engine.invariant_shown.start hshown, _, hfiled.grounded_start⟩
  unfold Session.run at hrun
  split at hrun
  · cases hrun
  rename_i goal hgoal
  have hbound := lt_size_of_goal hgoal
  cases hconflict : Engine.findConflict [] s.engine.start.1 with
  | some pair =>
    obtain ⟨c, d⟩ := pair
    simp only [hconflict] at hrun
    refine hfinish ?_ (fun i hi => ?_) hrun
    · rw [engineAt_setEngine hbound]
      exact Engine.invariant_shown.conflict c d hstart.shown
    · rw [engineAt_setEngine hbound]
      cases hi
      exact hfiled.restsOn_conflict hshown hconflict
  | none =>
    simp only [hconflict] at hrun
    -- no other engine is touched but by hooks, so all of them may be in the middle of a run
    have hholds : (s.setEngine s.current s.engine.start.2).Holds Engine.Shown Engine.Rooted {n | n ≠ s.current} := by
      intro n
      by_cases hn : n = s.current
      · subst hn
        rw [engineAt_setEngine hbound]
        exact ⟨hstart.shown, fun _ => hstart⟩
      · rw [engineAt_setEngine_of_ne hn]
        exact ⟨hs n, fun hnot => absurd hn hnot⟩
    generalize hi : interleave s.current options.limit options.abort (Hook.actions hooks)
      (agenda (Hook.actions hooks) options.abort) { session := s.setEngine s.current s.engine.start.2 } = result at hrun
    obtain ⟨ending, p⟩ := result
    cases ending with
    | aborted round => cases hrun
    | decided verdict =>
      have hin : s.current ∉ {n | n ≠ s.current} := by simp
      obtain ⟨hheld, hrests⟩ := rests_interleave (Hook.keeps_actions Engine.invariant_rooted hooks) hin hholds hi
      exact hfinish (hheld s.current).1 hrests hrun

end Result

end Session

end Clausal
