import Clausal.Proofs.Links
import Clausal.Proofs.Retelling

/-!
# Clauses know where they stand

A clause is shown wherever it has been registered, with the position that it got last.  Clauses of the knowledge base
are registered at most once, for a run works on copies of them, and those of the support are registered anew only when a
run begins another derivation.  So every clause of the present derivation was registered last where it stands there
(`Engine.invariant_indexed`), also in the middle of a run, and after the end of a run has shown the knowledge base anew.
-/

namespace Clausal

namespace Derivation

variable {d d' : Derivation} {c : Clause} {places : List Place} {new : List Clause}

/-- The derivation grows by clauses that know where they are put. -/
theorem Indexed.grow (h : d.Indexed) (hd : d'.toList = d.toList ++ new)
    (hnew : ∀ i c, new[i]? = some c → c.index? = some (d.toList.length + i)) : d'.Indexed := by
  intro i c hc
  rw [hd, List.getElem?_append] at hc
  split at hc
  · exact h i c hc
  · rw [Clause.index, hnew _ c hc]
    show ((d.toList.length + (i - d.toList.length) : Nat) : Int) = i
    omega

/-- A clause is shown anew where it was registered last. -/
theorem Indexed.refresh (h : d.Indexed)
    (hc : ∀ p ∈ places, p.derivation = d.number → c.index? = some p.position) : (d.refresh places c).Indexed := by
  have hfold : ∀ clauses : Array Clause, (∀ (i : Nat) (b : Clause), clauses.toList[i]? = some b → b.index = i) →
      ∀ (i : Nat) (b : Clause), (places.foldl (fun clauses place =>
        if place.derivation = d.number then clauses.setIfInBounds place.position c else clauses)
        clauses).toList[i]? = some b → b.index = i := by
    induction places with
    | nil => exact fun clauses hclauses => hclauses
    | cons place places ih =>
      intro clauses hclauses
      rw [List.foldl_cons]
      apply ih fun p hp => hc p (by simp [hp])
      split
      · rename_i hplace
        intro i b hb
        rw [Array.toList_setIfInBounds, List.getElem?_set] at hb
        split at hb
        · rename_i heq
          split at hb
          · cases hb
            rw [Clause.index, hc place (by simp) hplace, heq]
          · cases hb
        · exact hclauses i b hb
      · exact hclauses
  exact hfold d.clauses h

end Derivation

namespace Engine

variable {e e' : Engine} {c : Clause} {cs : List Clause}

theorem indexed_registerAll (h : e.derivation.Indexed)
    (hforeign : ∀ c ∈ cs, ∀ p ∈ c.places, p.derivation ≠ e.derivation.number) :
    (e.registerAll cs).2.derivation.Indexed :=
  h.grow (toList_registerAll hforeign) fun _ _ hc => index_registerAll hforeign hc

theorem indexed_register (h : e.derivation.Indexed) (hplaces : c.places = []) :
    (e.register c).2.derivation.Indexed := by
  refine h.grow (toList_register_of_places e hplaces) fun i b hb => ?_
  obtain ⟨rfl, rfl⟩ : i = 0 ∧ (e.register c).1 = b := by
    cases i with
    | zero => simpa using hb
    | succ i => simp at hb
  rw [Clause.index?, places_register e hplaces, Derivation.nextPlace, Derivation.size_eq]
  rfl

/-- The clauses of the present derivation were registered last where they stand, and those of the knowledge base were
registered once at most. -/
structure Indexed (e : Engine) : Prop extends Shown e where
  present : e.derivation.Indexed
  once : ∀ c ∈ e.knowledge.toList, c.places.length ≤ 1

theorem kept_indexed : Kept Indexed where
  add {e} text h := by
    refine ⟨kept_shown.add text h.toShown, ?_, fun c hc => ?_⟩
    · rw [add_frame]
      exact h.present
    · rcases mem_knowledge_add hc with hc | hplaces
      · exact h.once c hc
      · simp [hplaces]
  remove h hremove := by
    have hshown := kept_shown.remove h.toShown hremove
    obtain ⟨c, -, rfl⟩ := remove_eq_ok_iff.1 hremove
    exact ⟨hshown, h.present, fun b hb => h.once b (List.mem_of_mem_filter hb)⟩
  setGoal h hgoal := by
    have hshown := kept_shown.setGoal h.toShown hgoal
    obtain ⟨c, -, rfl⟩ := setGoal_eq_ok_iff.1 hgoal
    exact ⟨hshown, h.present, h.once⟩
  count h hn := ⟨kept_shown.count h.toShown hn, h.present, h.once⟩
  register h hplaces := ⟨h.register hplaces, indexed_register h.present hplaces, h.once⟩
  enlistKnown {e c} h hc hplaces := by
    refine ⟨kept_shown.enlistKnown h.toShown hc hplaces, indexed_register h.present hplaces, fun b hb => ?_⟩
    rcases ClauseTable.mem_or_eq_of_mem_put hb with hb | rfl
    · exact h.once b hb
    · rw [places_register e hplaces]
      simp
  enlistSupport h hc hplaces :=
    ⟨kept_shown.enlistSupport h.toShown hc hplaces, indexed_register h.present hplaces, h.once⟩

/-- A clause that was registered once was registered last there. -/
theorem index_of_once (h : c.places.length ≤ 1) {p : Place} (hp : p ∈ c.places) : c.index? = some p.position := by
  cases hplaces : c.places with
  | nil => simp [hplaces] at hp
  | cons q places =>
    have hnil : places = [] := by simpa [hplaces] using h
    obtain rfl : p = q := by simpa [hplaces, hnil] using hp
    simp [Clause.index?, hplaces]

theorem indexed_refreshAll (h : e.derivation.Indexed) (hcs : ∀ c ∈ cs, c.places.length ≤ 1) :
    (cs.foldl (fun e c => e.refresh c.places c) e).derivation.Indexed := by
  induction cs generalizing e with
  | nil => exact h
  | cons c cs ih =>
    refine ih (h.refresh fun p hp _ => ?_) fun b hb => hcs b (by simp [hb])
    exact index_of_once (hcs c (by simp)) hp

theorem Indexed.start (h : e.Indexed) : e.start.2.Indexed := by
  have hempty : e.opened.derivation.Indexed := by
    intro i c hc
    simp [opened, Derivation.toList] at hc
  have hsupport : ∀ c ∈ e.copied.2.support.toList, ∀ p ∈ c.places, p.derivation ≠ e.copied.2.derivation.number := by
    intro c hc p hp
    rw [support_copied] at hc
    have := h.support c hc p hp
    rw [number_copied]
    omega
  refine ⟨invariant_shown.start h.toShown, ?_, ?_⟩
  · rw [start_eq]
    exact indexed_registerAll (indexed_registerAll hempty (bare_foreign _)) hsupport
  · rw [(frame_start e).1]
    exact h.once

theorem Indexed.reset (h : e.Indexed) : e.reset.Indexed := by
  have hrenumbered : ∀ c ∈ renumbered 1 e.knowledge.toList, c.places.length ≤ 1 := by
    intro c hc
    obtain ⟨b, hb, hplaces⟩ := places_renumbered hc
    rw [hplaces]
    exact h.once b hb
  refine ⟨h.toShown.reset, indexed_refreshAll h.present hrenumbered, ?_⟩
  rw [toList_knowledge_reset]
  exact hrenumbered

/-- **Clauses know where they stand** in the present derivation, at any moment. -/
theorem invariant_indexed : Invariant Indexed Indexed where
  duringRuns := kept_indexed
  betweenRuns := kept_indexed
  busy_of_idle h := h
  fresh := ⟨invariant_shown.fresh, fun i c hc => by simp [Derivation.toList] at hc, by simp⟩
  start h := h.start
  round {e} n h := by
    obtain ⟨new, hy⟩ := yields_round (Prod.eta (e.round n)).symm
    refine ⟨invariant_shown.round n h.toShown, h.present.grow hy.toList fun i c hc => ?_, ?_⟩
    · rw [Clause.index?, hy.places i c hc]
      rfl
    · rw [hy.steady.knowledge]
      exact h.once
  conflict {e} c d h :=
    ⟨invariant_shown.conflict c d h.toShown, indexed_register (e := { e with counter := e.counter + 1 }) h.present rfl,
      h.once⟩
  reset h := h.reset

end Engine

end Clausal
