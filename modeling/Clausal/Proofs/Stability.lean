import Clausal.Proofs.Grounds
import Clausal.Proofs.Retelling

/-!
# Results that last

The result of a run names its derivation, which the engine goes on with: resolving by hand registers more clauses
there, the end of a later run shows the knowledge base anew wherever it stands, and the beginning of one moves the
support.  None of this reaches the positions on which the derivation was built, so what is told of the result stays the
same.

* `Engine.Guards d G e`: the derivation `d` is still shown at the positions `G`, and no clause of the knowledge base
  stands there;
* `Engine.Later`: the calls that may follow a run;
* `Session.Moment`: the sessions that there are at any moment, also in the middle of runs.  Whatever all calls and
  rounds keep holds of their engines (`Engine.Momentary`, `Session.Moment.momentary`);
* `Derivation.reach_congr`: a walk from one of the positions sees nothing else;
* `Session.result_lasts`: the result of a run lasts.
-/

namespace Clausal

/-! ## Showing clauses anew -/

namespace Derivation

/-- The derivation `d₁` shows the clauses of `d` at the positions `G`. -/
def Shows (d : Derivation) (G : Set Nat) (d₁ : Derivation) : Prop :=
  ∀ i ∈ G, ∃ c, d.toList[i]? = some c ∧ d₁.toList[i]? = some c

variable {d : Derivation} {c : Clause} {places : List Place} {i : Nat}

theorem getElem?_refresh (h : ∀ p ∈ places, p.derivation = d.number → p.position ≠ i) :
    (d.refresh places c).toList[i]? = d.toList[i]? := by
  have hfold : ∀ clauses : Array Clause, (places.foldl (fun clauses place =>
      if place.derivation = d.number then clauses.setIfInBounds place.position c else clauses)
      clauses)[i]? = clauses[i]? := by
    induction places with
    | nil => exact fun clauses => rfl
    | cons place places ih =>
      intro clauses
      rw [List.foldl_cons, ih fun p hp => h p (by simp [hp])]
      split
      · rename_i hplace
        exact Array.getElem?_setIfInBounds_ne (h place (by simp) hplace)
      · rfl
  simpa [toList, refresh] using hfold d.clauses

theorem getElem?_register {b : Clause} (h : ∀ p ∈ c.places, p.derivation = d.number → p.position ≠ i)
    (hb : d.toList[i]? = some b) : (d.register c).toList[i]? = some b := by
  have hrefresh : (d.refresh c.places (d.placed c)).toList[i]? = some b := (getElem?_refresh h).trans hb
  have hlist : (d.register c).toList = (d.refresh c.places (d.placed c)).toList ++ [d.placed c] := by
    simp [register, toList]
  rw [hlist]
  exact getElem?_append_of_some _ hrefresh

end Derivation

namespace Engine

variable {e e' : Engine} {c : Clause} {places : List Place} {n i : Nat}

theorem getElem?_refresh (h : ∀ p ∈ places, p.derivation = n → p.position ≠ i) :
    ((e.refresh places c).derivationAt n).toList[i]? = (e.derivationAt n).toList[i]? := by
  have hearlier : ∀ earlier : Array Derivation, ((places.foldl (fun earlier place =>
      earlier.modify place.derivation (·.refresh [place] c)) earlier).getD n {}).toList[i]? =
        (earlier.getD n {}).toList[i]? := by
    induction places with
    | nil => exact fun earlier => rfl
    | cons place places ih =>
      intro earlier
      rw [List.foldl_cons, ih fun p hp => h p (by simp [hp])]
      simp only [Array.getD_eq_getD_getElem?, Array.getElem?_modify]
      split
      · rename_i hplace
        cases earlier[n]? with
        | none => rfl
        | some d =>
          apply Derivation.getElem?_refresh
          intro p hp _
          rw [List.mem_singleton.1 hp]
          exact h place (by simp) hplace
      · rfl
  unfold derivationAt
  by_cases hn : n = e.derivation.number
  · rw [if_pos hn, if_pos (show n = (e.refresh places c).derivation.number from hn)]
    exact Derivation.getElem?_refresh fun p hp hpn => h p hp (hpn.trans hn.symm)
  · rw [if_neg hn, if_neg (show ¬n = (e.refresh places c).derivation.number from hn)]
    exact hearlier e.earlier

theorem getElem?_register {b : Clause} (h : ∀ p ∈ c.places, p.derivation = n → p.position ≠ i)
    (hb : (e.derivationAt n).toList[i]? = some b) : ((e.register c).2.derivationAt n).toList[i]? = some b := by
  by_cases hn : n = e.derivation.number
  · rw [derivationAt, if_pos hn] at hb
    rw [derivationAt, if_pos (show n = (e.register c).2.derivation.number from hn)]
    exact Derivation.getElem?_register (fun p hp hpn => h p hp (hpn.trans hn.symm)) hb
  · have hrefresh : ((e.refresh c.places (e.derivation.placed c)).derivationAt n).toList[i]? = some b :=
      (getElem?_refresh h).trans hb
    rw [derivationAt, if_neg (show ¬n = (e.refresh c.places (e.derivation.placed c)).derivation.number from hn)]
      at hrefresh
    rw [derivationAt, if_neg (show ¬n = (e.register c).2.derivation.number from hn)]
    exact hrefresh

/-! ## Guarded positions -/

variable {d : Derivation} {G : Set Nat}

/-- The derivation `d` is still shown at the positions `G`, and no clause of the knowledge base stands there. -/
structure Guards (d : Derivation) (G : Set Nat) (e : Engine) : Prop where
  earlier : e.earlier.size = e.derivation.number
  number : d.number ≤ e.derivation.number
  shows : d.Shows G (e.derivationAt d.number)
  knowledge : ∀ c ∈ e.knowledge.toList, c.Avoids d.number G

/-- No clause of the support stands there either. -/
structure Secures (d : Derivation) (G : Set Nat) (e : Engine) : Prop extends Guards d G e where
  support : ∀ c ∈ e.support.toList, c.Avoids d.number G

theorem avoids_of_places (h : c.places = []) (n : Nat) (G : Set Nat) : c.Avoids n G := by
  intro p hp
  simp [h] at hp

theorem Guards.refresh (h : e.Guards d G) {c' : Clause} (hc : c.Avoids d.number G) :
    (e.refresh c.places c').Guards d G := by
  refine ⟨(registers_refresh e _ _).earlier.trans h.earlier, h.number, fun i hi => ?_, h.knowledge⟩
  obtain ⟨b, hb, hshown⟩ := h.shows i hi
  refine ⟨b, hb, (getElem?_refresh fun p hp hpn heq => ?_).trans hshown⟩
  exact hc p hp hpn (heq ▸ hi)

theorem Guards.register (h : e.Guards d G) (hc : c.Avoids d.number G) : (e.register c).2.Guards d G := by
  refine ⟨(registers_register e c).earlier.trans h.earlier, h.number, fun i hi => ?_, h.knowledge⟩
  obtain ⟨b, hb, hshown⟩ := h.shows i hi
  refine ⟨b, hb, getElem?_register (fun p hp hpn heq => ?_) hshown⟩
  exact hc p hp hpn (heq ▸ hi)

theorem Guards.registerAll (h : e.Guards d G) {cs : List Clause} (hcs : ∀ c ∈ cs, c.Avoids d.number G) :
    (e.registerAll cs).2.Guards d G := by
  induction cs generalizing e with
  | nil => exact h
  | cons c cs ih =>
    rw [registerAll_cons]
    exact ih (h.register (hcs c (by simp))) fun b hb => hcs b (by simp [hb])

/-- A guarded position is one of the derivation that is shown. -/
theorem Guards.lt (h : e.Guards d G) (hn : d.number = e.derivation.number) (hi : i ∈ G) :
    i < e.derivation.toList.length := by
  obtain ⟨c, -, hc⟩ := h.shows i hi
  rw [derivationAt, if_pos hn] at hc
  exact lt_of_getElem? hc

/-- What is registered at the end stands at none of the positions. -/
theorem Guards.avoids_register (h : e.Guards d G) (hplaces : c.places = []) :
    (e.register c).1.Avoids d.number G := by
  intro p hp hpn hG
  rw [places_register e hplaces, List.mem_singleton] at hp
  subst hp
  have hlt := h.lt hpn.symm hG
  simp [Derivation.nextPlace, Derivation.size_eq] at hlt

/-! ## Later calls -/

theorem kept_secures (d : Derivation) (G : Set Nat) : Kept (Secures d G) where
  add {e} text h := by
    have hframe := add_frame e text
    refine ⟨⟨by rw [hframe]; exact h.earlier, by rw [hframe]; exact h.number, by rw [hframe]; exact h.shows,
      fun c hc => ?_⟩, by rw [hframe]; exact h.support⟩
    rcases mem_knowledge_add hc with hc | hplaces
    · exact h.knowledge c hc
    · exact avoids_of_places hplaces _ _
  remove h hremove := by
    obtain ⟨c, -, rfl⟩ := remove_eq_ok_iff.1 hremove
    exact ⟨⟨h.earlier, h.number, h.shows, fun b hb => h.knowledge b (List.mem_of_mem_filter hb)⟩, h.support⟩
  setGoal h hgoal := by
    obtain ⟨c, -, rfl⟩ := setGoal_eq_ok_iff.1 hgoal
    refine ⟨⟨h.earlier, h.number, h.shows, h.knowledge⟩, fun b hb => ?_⟩
    rw [toList_support_aim] at hb
    exact avoids_of_places (places_negationUnits hb).2 _ _
  count h _ := ⟨⟨h.earlier, h.number, h.shows, h.knowledge⟩, h.support⟩
  register h hplaces := ⟨h.register (avoids_of_places hplaces _ _), h.support⟩
  enlistKnown {e c} h _ hplaces := by
    have hregister := h.register (avoids_of_places hplaces _ _)
    refine ⟨⟨hregister.earlier, hregister.number, hregister.shows, fun b hb => ?_⟩, h.support⟩
    rcases ClauseTable.mem_or_eq_of_mem_put hb with hb | rfl
    · exact h.knowledge b hb
    · exact h.avoids_register hplaces
  enlistSupport {e c} h _ hplaces := by
    have hregister := h.register (avoids_of_places hplaces _ _)
    refine ⟨⟨hregister.earlier, hregister.number, hregister.shows, hregister.knowledge⟩, fun b hb => ?_⟩
    rcases ClauseTable.mem_or_eq_of_mem_put hb with hb | rfl
    · exact h.support b hb
    · exact h.avoids_register hplaces

/-- Rounds and conflicts register only clauses that are in no derivation. -/
theorem persistent_guards (d : Derivation) (G : Set Nat) : Persistent fun e e' => e.Guards d G → e'.Guards d G where
  refl _ h := h
  trans h h' hg := h' (h hg)
  register _ _ hplaces h := h.register (avoids_of_places hplaces _ _)
  update _ _ _ h hg := ⟨(h hg).earlier, (h hg).number, (h hg).shows, (h hg).knowledge⟩

/-- The derivation goes to the earlier ones when a new one begins. -/
theorem Guards.opened (h : e.Guards d G) : e.opened.Guards d G := by
  have hnumber := h.number
  have hearlier := h.earlier
  have hat : e.opened.derivationAt d.number = e.derivationAt d.number := by
    have hne : ¬d.number = e.opened.derivation.number := by
      show ¬d.number = e.derivation.number + 1
      omega
    rw [derivationAt, derivationAt, if_neg hne]
    show (e.earlier.push e.derivation).getD d.number {} = _
    rw [Array.getD_eq_getD_getElem?, Array.getElem?_push, hearlier]
    split
    · rfl
    · rw [Array.getD_eq_getD_getElem?]
  refine ⟨?_, ?_, ?_, h.knowledge⟩
  · show (e.earlier.push e.derivation).size = e.derivation.number + 1
    rw [Array.size_push, hearlier]
  · show d.number ≤ e.derivation.number + 1
    omega
  · rw [hat]
    exact h.shows

theorem Secures.start (h : e.Secures d G) : e.start.2.Guards d G := by
  have hcopied : e.copied.2.Guards d G :=
    h.opened.registerAll fun c hc => avoids_of_places (places_bare hc).2 _ _
  have henlisted : e.enlisted.2.Guards d G := by
    apply hcopied.registerAll
    rw [support_copied]
    exact h.support
  rw [start_eq]
  exact ⟨henlisted.earlier, henlisted.number, henlisted.shows, henlisted.knowledge⟩

theorem Guards.refreshAll (h : e.Guards d G) {cs : List Clause} (hcs : ∀ c ∈ cs, c.Avoids d.number G) :
    (cs.foldl (fun e c => e.refresh c.places c) e).Guards d G := by
  induction cs generalizing e with
  | nil => exact h
  | cons c cs ih => exact ih (h.refresh (hcs c (by simp))) fun b hb => hcs b (by simp [hb])

/-- The end of a run shows the knowledge base anew, but not at the positions. -/
theorem Guards.reset (h : e.Guards d G) : e.reset.Secures d G := by
  have hrenumbered : ∀ c ∈ renumbered 1 e.knowledge.toList, c.Avoids d.number G := by
    intro c hc p hp
    obtain ⟨b, hb, hplaces⟩ := places_renumbered hc
    exact h.knowledge b hb p (hplaces ▸ hp)
  have hall := h.refreshAll hrenumbered
  refine ⟨⟨hall.earlier, hall.number, hall.shows, ?_⟩, by simp [Engine.reset]⟩
  rw [toList_knowledge_reset]
  exact hrenumbered

theorem Secures.pursue (h : e.Secures d G) (goal : Clause) (limit : Option Int) :
    (e.pursue goal limit).2.Secures d G := by
  cases hfind : findConflict [] e.start.1 with
  | some pair =>
    rw [pursue_of_conflict hfind]
    exact ((persistent_guards d G).registerConflict _ _ _ h.start).reset
  | none =>
    obtain ⟨verdict, hverdict⟩ := exists_verdict_proceed e.start.2 limit
    rw [pursue_of_search hfind hverdict]
    exact ((persistent_guards d G).search _ _ _ _ _ h.start).reset

/-- Calls lead from the engine `e` to another one: clauses are added and removed, a goal is set, clauses are resolved by
hand, and the engine is run. -/
inductive Later (e : Engine) : Engine → Prop
  | refl : Later e e
  | add {e₁ : Engine} (h : Later e e₁) (text : String) : Later e (e₁.add text).2
  | remove {e₁ e₂ : Engine} {text : String} (h : Later e e₁) (hremove : e₁.remove text = .ok e₂) : Later e e₂
  | setGoal {e₁ e₂ : Engine} {text : String} (h : Later e e₁) (hgoal : e₁.setGoal text = .ok e₂) : Later e e₂
  | resolve {e₁ e₂ : Engine} {a : Operand} {b : Option Operand} {rs : List Clause} (h : Later e e₁)
      (hresolve : e₁.resolve a b = .ok (rs, e₂)) : Later e e₂
  | run {e₁ e₂ : Engine} {limit : Option Int} {r : Run} (h : Later e e₁) (hrun : e₁.run limit = .ok (r, e₂)) :
      Later e e₂

/-- **No later call reaches a guarded position.** -/
theorem Secures.later (h : e.Secures d G) (hlater : e.Later e') : e'.Secures d G := by
  induction hlater with
  | refl => exact h
  | add _ text ih => exact (kept_secures d G).add text ih
  | remove _ hremove ih => exact (kept_secures d G).remove ih hremove
  | setGoal _ hgoal ih => exact (kept_secures d G).setGoal ih hgoal
  | resolve _ hresolve ih => exact (kept_secures d G).resolve ih hresolve
  | @run e₁ e₂ limit r _ hrun ih =>
    unfold Engine.run at hrun
    split at hrun
    · cases hrun
    · rename_i goal _
      have hpursue := ih.pursue goal limit
      rwa [Except.ok.inj hrun] at hpursue

end Engine

/-! ## Walks among guarded positions -/

namespace Derivation

variable {d d₁ d₂ : Derivation} {G : Set Nat}

theorem Shows.get?_eq (h : d.Shows G d₁) {x : Int} (hx : ∃ j ∈ G, x = (j : Int)) :
    ∃ j ∈ G, ∃ c, d.toList[j]? = some c ∧ d₁.get? x = some c := by
  obtain ⟨j, hj, rfl⟩ := hx
  obtain ⟨c, hc, hc₁⟩ := h j hj
  exact ⟨j, hj, c, hc, by rw [get?_natCast, hc₁]⟩

theorem Shows.isSome (h : d.Shows G d₁) {x : Int} (hx : ∃ j ∈ G, x = (j : Int)) : (d₁.get? x).isSome = true := by
  obtain ⟨-, -, c, -, hc⟩ := h.get?_eq hx
  simp [hc]

theorem Shows.get_congr (h₁ : d.Shows G d₁) (h₂ : d.Shows G d₂) {x : Int} (hx : ∃ j ∈ G, x = (j : Int)) :
    d₁.get x = d₂.get x := by
  obtain ⟨j, hj, rfl⟩ := hx
  obtain ⟨c, hc, hc₁⟩ := h₁ j hj
  obtain ⟨c', hc', hc₂⟩ := h₂ j hj
  obtain rfl : c = c' := Option.some.inj (hc.symm.trans hc')
  rw [get, get, get?_natCast, get?_natCast, hc₁, hc₂]

theorem Shows.mapM_congr (h₁ : d.Shows G d₁) (h₂ : d.Shows G d₂) {names : List Int}
    (hnames : ∀ x ∈ names, ∃ j ∈ G, x = (j : Int)) : names.mapM d₁.get = names.mapM d₂.get := by
  have hall : List.Forall₂ (fun x y => d₁.get x = d₂.get y) names names :=
    List.forall₂_same.2 fun x hx => h₁.get_congr h₂ (hnames x hx)
  exact mapM_congr_of_rel hall fun _ _ hxy => hxy

/-- The parents of clauses at the positions are at the positions. -/
theorem ClosedOn.parents (hclosed : d.ClosedOn G) (h₁ : d.Shows G d₁) {names : List Int} {cs : List Clause}
    (hnames : ∀ x ∈ names, ∃ j ∈ G, x = (j : Int)) (hcs : names.mapM d₁.get = .ok cs) :
    ∀ x ∈ cs.flatMap Clause.parents, ∃ j ∈ G, x = (j : Int) := by
  intro x hx
  obtain ⟨c, hc, hxc⟩ := List.mem_flatMap.1 hx
  obtain ⟨y, hy, hget⟩ := exists_arg_of_mapM hcs hc
  obtain ⟨j, hj, b, hb, hyb⟩ := h₁.get?_eq (hnames y hy)
  obtain ⟨b', hb', hparents⟩ := hclosed j hj
  obtain rfl : b = b' := Option.some.inj (hb.symm.trans hb')
  rw [get_eq_ok_iff, hyb] at hget
  obtain rfl : b = c := Option.some.inj hget
  exact hparents x hxc

/-- **A walk that begins at the positions stays there**, and is the same in all derivations that show the same clauses
at them, however many others they have. -/
theorem reach_congr (hclosed : d.ClosedOn G) (h₁ : d.Shows G d₁) (h₂ : d.Shows G d₂) {seen frontier : List Int}
    {fuel fuel' : Nat} (hnodup : seen.Nodup) (hnames : ∀ x ∈ seen ++ frontier, ∃ j ∈ G, x = (j : Int))
    (hfuel : 2 * d₁.size < fuel + seen.length) (hfuel' : 2 * d₂.size < fuel' + seen.length) :
    d₁.reach fuel seen frontier = d₂.reach fuel' seen frontier ∧
      Ensures (fun names => ∀ x ∈ names, ∃ j ∈ G, x = (j : Int)) (fun _ => False) (d₁.reach fuel seen frontier) := by
  induction fuel generalizing fuel' seen frontier with
  | zero =>
    have := length_le_of_names hnodup fun x hx => h₁.isSome (hnames x (List.mem_append_left _ hx))
    omega
  | succ fuel ih =>
    cases fuel' with
    | zero =>
      have := length_le_of_names hnodup fun x hx => h₂.isSome (hnames x (List.mem_append_left _ hx))
      omega
    | succ fuel' =>
      rw [reach, reach]
      have hfresh : ∀ x ∈ frontier.eraseDups.filter fun i => !seen.contains i, x ∈ frontier ∧ x ∉ seen := by
        intro x hx
        simpa using hx
      have hfreshNodup : (frontier.eraseDups.filter fun i => !seen.contains i).Nodup := (nodup_eraseDups _).filter _
      generalize frontier.eraseDups.filter (fun i => !seen.contains i) = fresh at hfresh hfreshNodup ⊢
      split
      · exact ⟨rfl, fun x hx => hnames x (List.mem_append_left _ hx)⟩
      · rename_i hsome
        have hpos : 0 < fresh.length := List.length_pos_iff.2 fun hnil => hsome (by simp [hnil])
        have hfreshNames : ∀ x ∈ fresh, ∃ j ∈ G, x = (j : Int) :=
          fun x hx => hnames x (List.mem_append_right _ (hfresh x hx).1)
        rw [← h₁.mapM_congr h₂ hfreshNames]
        cases hmap : fresh.mapM d₁.get with
        | error fault =>
          obtain ⟨x, hx, hget⟩ := exists_of_mapM_eq_error hmap
          obtain ⟨-, -, c, -, hc⟩ := h₁.get?_eq (hfreshNames x hx)
          rw [(get_eq_error_iff.1 hget).1] at hc
          cases hc
        | ok cs =>
          have hlength : (seen ++ fresh).length = seen.length + fresh.length := List.length_append
          refine ih ?_ (fun x hx => ?_) (by omega) (by omega)
          · exact hnodup.append hfreshNodup fun x hx hx' => (hfresh x hx').2 hx
          · rcases List.mem_append.1 hx with hx | hx
            · rcases List.mem_append.1 hx with hx | hx
              · exact hnames x (List.mem_append_left _ hx)
              · exact hfreshNames x hx
            · exact hclosed.parents h₁ hfreshNames hmap x hx

/-- What is reached from one of the positions. -/
theorem reachable_congr (hclosed : d.ClosedOn G) (h₁ : d.Shows G d₁) (h₂ : d.Shows G d₂) {x : Int}
    (hx : ∃ j ∈ G, x = (j : Int)) : d₁.reachable x = d₂.reachable x ∧
      Ensures (fun names => ∀ y ∈ names, ∃ j ∈ G, y = (j : Int)) (fun _ => False) (d₁.reachable x) := by
  rw [reachable_eq_reach, reachable_eq_reach]
  refine reach_congr hclosed h₁ h₂ .nil (fun y hy => ?_) (by simp) (by simp)
  obtain rfl : y = x := by simpa using hy
  exact hx

end Derivation

/-! ## Results -/

namespace Outcome

/-- The numbers of the steps of the proof. -/
def stepIds (o : Outcome) : Option (List Int) := o.proof.toOption.map (·.map Clause.id)

/-- Outcomes with the same verdict have the same proof if their derivations show the same clauses where it stands. -/
theorem proof_congr {o o' : Outcome} {d : Derivation} (hverdict : o.verdict = o'.verdict)
    (h : ∀ x, o.verdict = .proven x → ∃ G, d.ClosedOn G ∧ d.Shows G o.derivation ∧ d.Shows G o'.derivation ∧
      ∃ j ∈ G, x = (j : Int)) : o.proof = o'.proof := by
  cases hv : o.verdict with
  | proven x =>
    obtain ⟨G, hclosed, h₁, h₂, hx⟩ := h x hv
    obtain ⟨hreachable, hnames⟩ := Derivation.reachable_congr hclosed h₁ h₂ hx
    unfold Outcome.proof
    rw [← hverdict, hv]
    dsimp only
    rw [← hreachable]
    cases hr : o.derivation.reachable x with
    | error fault =>
      rw [hr] at hnames
      cases hnames
    | ok names =>
      rw [hr] at hnames
      simp only [bind, Except.bind]
      rw [h₁.mapM_congr h₂ hnames]
  | unknown reason | undecided =>
    have hnot : ∀ x, o.verdict ≠ .proven x := by simp [hv]
    rw [proof_of_not_proven hnot, proof_of_not_proven (hverdict ▸ hnot)]

theorem conclusion_congr {o o' : Outcome} (hgoal : o.goal = o'.goal) (hverdict : o.verdict = o'.verdict) :
    o.conclusion = o'.conclusion := by
  unfold conclusion proven
  rw [hgoal, hverdict]

theorem trace_congr {o o' : Outcome} (hgoal : o.goal = o'.goal) (hverdict : o.verdict = o'.verdict)
    (hproof : o.proof = o'.proof) : o.trace = o'.trace := by
  unfold trace
  rw [hproof, conclusion_congr hgoal hverdict]

end Outcome

namespace Engine

/-- The engine as it is at some moment, between its runs or in the middle of one: whatever all calls and rounds keep
holds of it. -/
def Momentary (e : Engine) : Prop := ∀ busy idle : Engine → Prop, Invariant busy idle → busy e

/-- The engine of a run after its first round. -/
theorem Momentary.firstRound {e : Engine} (h : e.Momentary) : (e.start.2.round 1).2.Momentary :=
  fun busy idle hinvariant => hinvariant.round 1 (hinvariant.start (h busy idle hinvariant))

end Engine

namespace Session

variable {s s' : Session} {options : RunOptions} {o : Outcome} {printed : Option String}
  {snapshots : Option (List Engine.View)} {answers : Option (List Answer)} {r : Run} {e : Engine}

/-- The sessions that there are at some moment: steps are taken one after the other, and while a run is made, which may
be one of them, its hooks are called to take others. -/
inductive Moment : Session → Prop
  | new : Moment {}
  | step {s : Session} (h : Moment s) (step : Step) : Moment (step.value s).2
  | hook {s s' : Session} {options : RunOptions} {hooks : List Hook} (h : Moment s)
      (hcalls : Calls options (Hook.actions hooks) s s') : Moment s'

theorem holds_of_momentary (hs : ∀ n, (s.engineAt n).Momentary) {busy idle : Engine → Prop}
    (h : Engine.Invariant busy idle) : s.Holds busy idle Set.univ :=
  fun n => ⟨hs n busy idle h, fun hn => absurd (Set.mem_univ n) hn⟩

theorem momentary_value (hs : ∀ n, (s.engineAt n).Momentary) (step : Step) (n : Nat) :
    ((step.value s).2.engineAt n).Momentary :=
  fun _ _ h => (step.holds_value h (holds_of_momentary hs h) n).1

/-- **What hooks find**, after whichever round of a run they are called. -/
theorem momentary_of_calls (hs : ∀ n, (s.engineAt n).Momentary) {hooks : List Hook}
    (hcalls : Calls options (Hook.actions hooks) s s') (n : Nat) : (s'.engineAt n).Momentary := by
  intro busy idle h
  obtain ⟨-, -, hcalled⟩ := hcalls
  -- any of the engines may be in a run, since the run itself may have been called by a hook
  have hstart : (s.setEngine s.current s.engine.start.2).Holds busy idle (insert s.current Set.univ) :=
    (holds_of_momentary hs h).begin h (h.start (hs s.current busy idle h))
  exact (Holds.called h (Hook.keeps_actions h hooks) hcalled hstart n).1

theorem Moment.momentary (h : s.Moment) (n : Nat) : (s.engineAt n).Momentary := by
  induction h generalizing n with
  | new =>
    intro busy idle h
    rw [engineAt_new]
    exact h.busy_of_idle h.fresh
  | step _ step ih => exact momentary_value ih step n
  | hook _ hcalls ih => exact momentary_of_calls ih hcalls n

theorem Moment.performAll (h : s.Moment) (steps : List Step) : (Step.performAll steps s).2.Moment := by
  induction steps generalizing s with
  | nil => exact h
  | cons step steps ih => exact ih (h.step step)

theorem momentary_performAll (steps : List Step) (n : Nat) : ((Step.performAll steps {}).2.engineAt n).Momentary :=
  (Moment.new.performAll steps).momentary n

/-- What the hooks of a run find that are called after its first round. -/
theorem momentary_firstRound (h : ∀ n, (s.engineAt n).Momentary) (n : Nat) :
    ((s.setEngine s.current (s.engine.start.2.round 1).2).engineAt n).Momentary := by
  intro busy idle hinvariant
  have hround : (s.setEngine s.current (s.engine.start.2.round 1).2).Holds busy idle (insert s.current Set.univ) :=
    (holds_of_momentary h hinvariant).begin hinvariant ((h s.current).firstRound busy idle hinvariant)
  exact (hround n).1

/-- A run that is not given up returns a result. -/
theorem exists_result (options : RunOptions) (hooks : List (Int × Action)) {goal : Clause}
    (hgoal : s.engine.goal = some goal) (habort : options.abort = none) : ∃ o printed snapshots answers s' r,
      s.run options hooks = (.run (.ok o) printed snapshots answers, s') ∧
      s'.runs.getLast? = some (s.current, r) := by
  have hfinish : ∀ verdict p, ∃ o printed snapshots answers s' r,
      finish s.current options goal verdict p = (.run (.ok o) printed snapshots answers, s') ∧
      s'.runs.getLast? = some (s.current, r) := by
    intro verdict p
    obtain ⟨o, printed, snapshots, answers, s', r, hrun, hlast, -⟩ :=
      exists_finish s.current options goal verdict p
    exact ⟨o, printed, snapshots, answers, s', r, hrun, hlast⟩
  unfold Session.run
  rw [hgoal]
  dsimp only
  split
  · exact hfinish _ _
  · split
    · exact hfinish _ _
    · rename_i round hend
      have := abort_of_interleave hend
      rw [habort] at this
      cases this

/-- **The result of a run lasts.**  The run may be one that hooks accompany, and may itself be called by a hook in the
middle of another run; but its support has to be asserted, as it is between runs and whenever a goal has just been set.
After any later calls its goal, its history and its verdict, the conclusion, the steps of the proof and the lines in
which they are shown are what they were when the run returned. -/
theorem result_lasts {hooks : List Hook} (hs : ∀ n, (s.engineAt n).Momentary)
    (hasserted : ∀ c ∈ s.engine.support.toList, c.parents = [])
    (hrun : s.run options (Hook.actions hooks) = (.run (.ok o) printed snapshots answers, s'))
    (hlast : s'.runs.getLast? = some (s.current, r)) (hlater : (s'.engineAt s.current).Later e) :
    o.Agrees (e.outcome r) ∧ o.conclusion = (e.outcome r).conclusion ∧ o.proof = (e.outcome r).proof := by
  have hshown : ∀ n, (s.engineAt n).Shown := fun n => hs n _ _ Engine.invariant_shown
  obtain ⟨x, hx, hengine, hnumber, rfl, hrests⟩ := rests_run hshown hasserted hrun hlast
  rw [hengine] at hlater
  have hproof : (x.reset.outcome r).proof = (e.outcome r).proof := by
    refine Outcome.proof_congr (d := x.derivation) rfl fun i hi => ?_
    obtain ⟨G, hG, hj⟩ := hrests i hi
    have hguards : x.Guards x.derivation G := by
      refine ⟨hx.earlier, le_refl _, fun k hk => ?_, hG.knowledge⟩
      obtain ⟨c, hc, -⟩ := hG.closed k hk
      refine ⟨c, hc, ?_⟩
      rw [Engine.derivationAt, if_pos rfl, hc]
    have hsecures := hguards.reset
    have hafter := hsecures.later hlater
    refine ⟨G, hG.closed, ?_, ?_, hj⟩
    · show x.derivation.Shows G (x.reset.derivationAt r.derivation)
      rw [hnumber]
      exact hsecures.shows
    · show x.derivation.Shows G (e.derivationAt r.derivation)
      rw [hnumber]
      exact hafter.shows
  exact ⟨⟨rfl, rfl, rfl, Outcome.trace_congr rfl rfl hproof⟩, Outcome.conclusion_congr rfl rfl, hproof⟩

theorem result_lasts_hooked :
    let s := (Step.performAll [.add "p v q", .add "~p", .goal "q"] {}).2
    let hooks : List Hook := [.mk 1 [.resolve (.knowledge 0) (some (.made (Clause.parse 0 "x")))]]
    (∀ n, (s.engineAt n).Momentary) ∧ (∀ c ∈ s.engine.support.toList, c.parents = []) ∧
      ∃ o printed snapshots answers s' r, s.run {} (Hook.actions hooks) = (.run (.ok o) printed snapshots answers, s') ∧
        s'.runs.getLast? = some (s.current, r) ∧ r.verdict = .proven 6 ∧
        o.proof = (((s'.engineAt s.current).add "r").2.outcome r).proof := by
  intro s hooks
  have hs : ∀ n, (s.engineAt n).Momentary := momentary_performAll _
  have hasserted : ∀ c ∈ s.engine.support.toList, c.parents = [] := by decide +kernel
  have hgoal : s.engine.goal.isSome = true := by decide +kernel
  have hverdict : ((s.run {} (Hook.actions hooks)).2.runs.getLast?.map (·.2.verdict)) = some (.proven 6) := by
    decide +kernel
  clear_value s
  obtain ⟨goal, hgoal⟩ := Option.isSome_iff_exists.1 hgoal
  obtain ⟨o, printed, snapshots, answers, s', r, hrun, hlast⟩ :=
    exists_result {} (Hook.actions hooks) hgoal rfl
  rw [hrun, hlast] at hverdict
  obtain ⟨-, -, hproof⟩ := result_lasts hs hasserted hrun hlast (.add .refl "r")
  exact ⟨hs, hasserted, o, printed, snapshots, answers, s', r, hrun, hlast, Option.some.inj hverdict, hproof⟩

/-- **A result that does not last.**  A hook runs the engine in the middle of another run, whose support has been
derived: it names parents by positions of the derivation of that other run.  In the new derivation a clause of the
knowledge base comes to stand at one of them, and is numbered anew at the end of a later run. -/
theorem nested_result_changes :
    let outer := (Step.performAll [.add "~p v t", .add "~t", .add "p v s", .goal "q v r v s"] {}).2
    let first := outer.engine.start.2.round 1
    let s := outer.setEngine outer.current first.2
    let hooks : List Hook := [.mk 1 [.resolve (.knowledge 2) (some (.made (Clause.parse 0 "x")))]]
    first.1.ending = .productive ∧ (∀ n, (s.engineAt n).Momentary) ∧
      ∃ o printed snapshots answers s' r e,
        s.run {} (Hook.actions hooks) = (.run (.ok o) printed snapshots answers, s') ∧
        s'.runs.getLast? = some (s.current, r) ∧ (s'.engineAt s.current).Later e ∧
        ((s'.engineAt s.current).outcome r).stepIds = some [1, 2, 3, 3, 7, 8, 9] ∧
        (e.outcome r).stepIds = some [1, 2, 2, 3, 7, 8, 9] := by
  intro outer first s hooks
  have hs : ∀ n, (s.engineAt n).Momentary := momentary_firstRound (momentary_performAll _)
  have hproductive : first.1.ending = .productive := by decide +kernel
  have hgoal : s.engine.goal.isSome = true := by decide +kernel
  have hbefore : (s.run {} (Hook.actions hooks)).2.runs.getLast?.map (fun run =>
      (((s.run {} (Hook.actions hooks)).2.engineAt s.current).outcome run.2).stepIds) =
      some (some [1, 2, 3, 3, 7, 8, 9]) := by
    decide +kernel
  have hafter : (s.run {} (Hook.actions hooks)).2.runs.getLast?.map (fun run =>
      (((s.run {} (Hook.actions hooks)).2.engineAt s.current).remove "~t").toOption.bind fun e₁ =>
        (e₁.setGoal "z").toOption.bind fun e₂ => (e₂.run none).toOption.map fun result =>
          (result.2.outcome run.2).stepIds) = some (some (some [1, 2, 2, 3, 7, 8, 9])) := by
    decide +kernel
  clear_value s
  obtain ⟨goal, hgoal⟩ := Option.isSome_iff_exists.1 hgoal
  obtain ⟨o, printed, snapshots, answers, s', r, hrun, hlast⟩ := exists_result {} (Hook.actions hooks) hgoal rfl
  rw [hrun, hlast] at hbefore hafter
  simp only [Option.map_some, Option.some.injEq] at hbefore hafter
  obtain ⟨e₁, he₁, hafter⟩ := Option.bind_eq_some_iff.1 hafter
  obtain ⟨e₂, he₂, hafter⟩ := Option.bind_eq_some_iff.1 hafter
  obtain ⟨⟨r', e₃⟩, he₃, hafter⟩ := Option.map_eq_some_iff.1 hafter
  have hok : ∀ {ε α : Type} {x : Except ε α} {a : α}, x.toOption = some a → x = .ok a := by
    intro ε α x a hx
    cases x with
    | error _ => simp [Except.toOption] at hx
    | ok b => rw [Option.some.inj hx]
  refine ⟨hproductive, hs, o, printed, snapshots, answers, s', r, e₃, hrun, hlast, ?_, hbefore, hafter⟩
  exact .run (.setGoal (.remove .refl (hok he₁)) (hok he₂)) (hok he₃)

end Session

end Clausal
