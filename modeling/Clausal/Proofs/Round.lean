import Clausal.Engine.Round
import Clausal.Proofs.Saturation
import Clausal.Proofs.Table

/-!
# Rounds as saturation steps

A round goes through the pairs of a clause of the working set and one of the support, drops and replaces
candidates on its way, and takes out and puts in at the end.  Told of literal sets, it is one step of
saturation, whatever the order of the clauses:

* `Sweep.Tracks e Q w`: what the sweep `w` of a round of `e` holds after the resolvents `Q`;
* `Sweep.finds_all`: a sweep goes through all resolvents or stops at the empty one;
* `Engine.refutes_round`, `Engine.completes_round`: what a round does with the empty resolvent and
  without it.
-/

namespace Clausal

namespace Engine

/-! ## What registering leaves alone -/

/-- The second engine has the knowledge base, the goal and the working set of the first, and in its
support the same literal sets. -/
structure Agrees (e e' : Engine) : Prop where
  knowledge : e'.knowledge = e.knowledge
  goal : e'.goal = e.goal
  working : e'.working = e.working
  support : e'.support.sets = e.support.sets

theorem Agrees.refl (e : Engine) : e.Agrees e := ⟨rfl, rfl, rfl, rfl⟩

theorem Agrees.trans {e e₁ e₂ : Engine} (h : e.Agrees e₁) (h' : e₁.Agrees e₂) : e.Agrees e₂ :=
  ⟨h'.knowledge.trans h.knowledge, h'.goal.trans h.goal, h'.working.trans h.working,
    h'.support.trans h.support⟩

theorem agrees_register (e : Engine) (c : Clause) : e.Agrees (e.register c).2 := ⟨rfl, rfl, rfl, rfl⟩

theorem registerAll_cons (e : Engine) (c : Clause) (cs : List Clause) :
    e.registerAll (c :: cs) = ((e.register c).1 :: ((e.register c).2.registerAll cs).1,
      ((e.register c).2.registerAll cs).2) := rfl

theorem agrees_registerAll (e : Engine) (cs : List Clause) : e.Agrees (e.registerAll cs).2 := by
  induction cs generalizing e with
  | nil => exact .refl e
  | cons c cs ih =>
    rw [registerAll_cons]
    exact (agrees_register e c).trans (ih _)

/-- Registering changes only the places of a clause. -/
theorem map_registerAll {β : Type} {f : Clause → β} {e : Engine} {cs : List Clause}
    (hf : ∀ (c : Clause) (places : List Place), f { c with places } = f c) :
    (e.registerAll cs).1.map f = cs.map f := by
  induction cs generalizing e with
  | nil => rfl
  | cons c cs ih =>
    rw [registerAll_cons, List.map_cons, List.map_cons, ih]
    congr 1
    exact hf c _

theorem agrees_link (e : Engine) (c d : Clause) : e.Agrees (e.link c d).2 := by
  have h := agrees_registerAll { e with counter := e.counter + (c.literals.leftovers d.literals).length }
    (Clause.number [c.index, d.index] e.counter (c.literals.leftovers d.literals))
  exact ⟨h.knowledge, h.goal, h.working, h.support⟩

end Engine

theorem LiteralSet.mem_leftovers {s t r : LiteralSet} :
    r ∈ s.leftovers t ↔ ∃ l, l ∈ s ∧ l.complement ∈ t ∧ r = s.resolvent t l := by
  unfold leftovers
  simp only [List.mem_map, mem_clashes, and_assoc, eq_comm]

theorem Clause.mem_setsOf_number {parents : List Int} {next : Int} {ls : List LiteralSet}
    {r : LiteralSet} : r ∈ setsOf (Clause.number parents next ls) ↔ r.isTautology = false ∧ r ∈ ls := by
  induction ls generalizing next with
  | nil => simp [Clause.number]
  | cons s ls ih =>
    rw [Clause.number]
    by_cases hs : s.isTautology = true
    · rw [if_pos hs, ih, List.mem_cons]
      refine and_congr_right fun hr => ⟨.inr, fun h => h.resolve_left ?_⟩
      rintro rfl
      rw [hs] at hr
      cases hr
    · rw [if_neg hs, setsOf_cons, Set.mem_insert_iff, ih, List.mem_cons]
      rw [Bool.not_eq_true] at hs
      constructor
      · rintro (rfl | ⟨ht, hr⟩)
        · exact ⟨hs, .inl rfl⟩
        · exact ⟨ht, .inr hr⟩
      · rintro ⟨ht, rfl | hr⟩
        · exact .inl rfl
        · exact .inr ⟨ht, hr⟩

theorem Engine.setsOf_link (e : Engine) (c d : Clause) :
    setsOf (e.link c d).1 = resolvents {c.literals} {d.literals} := by
  unfold Engine.link
  rw [setsOf_eq_of_map (map_registerAll fun _ _ => rfl)]
  ext r
  rw [Clause.mem_setsOf_number, LiteralSet.mem_leftovers, mem_resolvents]
  simp

/-! ## Sweeps -/

namespace Sweep

variable {e : Engine} {Q : Set LiteralSet} {w : Sweep}

/-- The sweep of a round of `e` after the resolvents `Q`: the candidates are the minimal ones of those
that the working set does not cover, and they doom what they subsume. -/
structure Tracks (e : Engine) (Q : Set LiteralSet) (w : Sweep) : Prop where
  agrees : e.Agrees w.engine
  candidates : w.candidates.sets = minimals (uncovered e.working.sets Q)
  doomed : w.doomed.sets = {c | c ∈ e.working.sets ∧ Covered (uncovered e.working.sets Q) c}

theorem tracks_start (e : Engine) : Tracks e ∅ { engine := e } where
  agrees := .refl e
  candidates := by
    ext r
    simp [mem_minimals, uncovered]
  doomed := by
    ext c
    simp [Covered, uncovered]

theorem any_subsumes_iff {t : ClauseTable} {r : Clause} :
    t.toList.any (·.subsumes r) = true ↔ Covered t.sets r.literals := by
  simp [Covered, ClauseTable.mem_sets, Clause.subsumes_iff]

/-- **One resolvent.**  A covered one changes nothing, one that a candidate subsumes neither; any other
takes the place of the candidates that it subsumes. -/
theorem Tracks.consider (h : w.Tracks e Q) (r : Clause) :
    (w.consider r).Tracks e (insert r.literals Q) := by
  have hworking : w.engine.working.sets = e.working.sets := by rw [h.agrees.working]
  unfold Sweep.consider
  by_cases hcov : Covered e.working.sets r.literals
  · rw [if_pos (any_subsumes_iff.2 (hworking ▸ hcov))]
    exact ⟨h.agrees, by rw [uncovered_insert_of_covered hcov, h.candidates],
      by rw [uncovered_insert_of_covered hcov, h.doomed]⟩
  rw [if_neg (fun hany => hcov (hworking ▸ any_subsumes_iff.1 hany))]
  have hins := uncovered_insert_of_not_covered (Q := Q) hcov
  have hanti : IsAntichain (· ⊆ ·) w.candidates.sets := by
    rw [h.candidates]
    exact isAntichain_minimals
  have hcand : Covered w.candidates.sets r.literals ↔
      Covered (uncovered e.working.sets Q) r.literals := by
    rw [h.candidates, covered_minimals]
  cases habs : w.candidates.absorb r with
  | none =>
    have hr := hcand.1 ((ClauseTable.absorb_eq_none_iff hanti).1 habs)
    refine ⟨h.agrees, by rw [hins, minimals_insert_of_covered hr, h.candidates], ?_⟩
    rw [hins, h.doomed]
    ext c
    refine and_congr_right fun _ => ⟨Covered.mono (Set.subset_insert _ _), ?_⟩
    -- what `r` subsumes is subsumed by what covers `r`
    refine Covered.trans fun s hs => ?_
    rcases hs with rfl | hs
    · exact hr
    · exact covered_of_mem hs
  | some result =>
    obtain ⟨out, candidates⟩ := result
    have hr : ¬Covered (uncovered e.working.sets Q) r.literals := by
      rw [← hcand, ← ClauseTable.absorb_eq_none_iff hanti, habs]
      simp
    refine ⟨h.agrees, ?_, ?_⟩
    · show candidates.sets = _
      rw [ClauseTable.sets_of_absorb habs, hins, minimals_insert_of_not_covered hr, h.candidates]
    · show (w.doomed.putAll _).sets = _
      rw [ClauseTable.sets_putAll, h.doomed, hins, h.agrees.working]
      ext c
      simp only [Set.mem_union, mem_setsOf, Set.mem_ofPred_eq, List.mem_filter, Bool.and_eq_true,
        Bool.not_eq_true', ClauseTable.contains_eq_false_iff, Clause.subsumes_iff]
      constructor
      · rintro (⟨hc, hcov⟩ | ⟨d, ⟨hd, hrd, -⟩, rfl⟩)
        · exact ⟨hc, hcov.mono (Set.subset_insert _ _)⟩
        · exact ⟨ClauseTable.literals_mem_sets hd, r.literals, .inl rfl, hrd⟩
      · rintro ⟨hc, s, rfl | hs, hsc⟩
        · by_cases hdoomed : c ∈ w.doomed.sets
          · rw [h.doomed] at hdoomed
            exact .inl hdoomed
          · obtain ⟨d, hd, rfl⟩ := hc
            exact .inr ⟨d, ⟨hd, hsc, hdoomed⟩, rfl⟩
        · exact .inl ⟨hc, s, hs, hsc⟩

/-- How a part of a sweep of `e` ends that goes through the resolvents `Q`: with the sweep after them if
the empty one is not among them, and else with a refutation. -/
def Finds (e : Engine) (Q : Set LiteralSet) : Except Refutation Sweep → Prop
  | .ok w => w.Tracks e Q ∧ .empty ∉ Q
  | .error found => .empty ∈ Q ∧ e.Agrees found.engine

theorem finds_sift (c s : Clause) (rs : List Clause) (h : w.Tracks e Q) (hn : .empty ∉ Q) :
    Finds e (Q ∪ setsOf rs) (w.sift c s rs) := by
  induction rs generalizing w Q with
  | nil =>
    rw [setsOf_nil, Set.union_empty]
    exact ⟨h, hn⟩
  | cons r rs ih =>
    rw [sift]
    by_cases hr : r.isEmpty = true
    · rw [if_pos hr]
      refine ⟨.inr ⟨r, by simp, ?_⟩, h.agrees⟩
      exact LiteralSet.isEmpty_iff.1 hr
    · rw [if_neg hr]
      have hne : .empty ∉ insert r.literals Q := by
        rintro (he | he)
        · exact hr (LiteralSet.isEmpty_iff.2 he.symm)
        · exact hn he
      have := ih (h.consider r) hne
      rwa [Set.insert_union, ← Set.union_insert, ← setsOf_cons] at this

/-- **A loop of a sweep.**  If each pass goes through the resolvents `q a`, all passes go through all of
them. -/
theorem finds_foldlM {α : Type} {f : Sweep → α → Except Refutation Sweep} {q : α → Set LiteralSet}
    {as : List α} (hstep : ∀ a ∈ as, ∀ Q w, w.Tracks e Q → .empty ∉ Q → Finds e (Q ∪ q a) (f w a))
    (h : w.Tracks e Q) (hn : .empty ∉ Q) : Finds e (Q ∪ {r | ∃ a ∈ as, r ∈ q a}) (as.foldlM f w) := by
  induction as generalizing w Q with
  | nil =>
    have he : {r | ∃ a ∈ ([] : List α), r ∈ q a} = ∅ := by simp
    rw [he, Set.union_empty]
    exact ⟨h, hn⟩
  | cons a as ih =>
    have hsplit : Q ∪ {r | ∃ b ∈ a :: as, r ∈ q b} = (Q ∪ q a) ∪ {r | ∃ b ∈ as, r ∈ q b} := by
      ext r
      simp [or_assoc]
    rw [hsplit, List.foldlM_cons]
    have hfirst := hstep a (by simp) Q w h hn
    cases hf : f w a with
    | error found =>
      rw [hf] at hfirst
      exact ⟨.inl hfirst.1, hfirst.2⟩
    | ok w' =>
      rw [hf] at hfirst
      exact ih (fun b hb => hstep b (by simp [hb])) hfirst.1 hfirst.2

theorem finds_meet (s c : Clause) (h : w.Tracks e Q) (hn : .empty ∉ Q) :
    Finds e (Q ∪ resolvents {c.literals} {s.literals}) (meet s w c) := by
  have hlink : ({ w with engine := (w.engine.link c s).2 } : Sweep).Tracks e Q :=
    ⟨h.agrees.trans (Engine.agrees_link _ _ _), h.candidates, h.doomed⟩
  have := finds_sift c s (w.engine.link c s).1 hlink hn
  rwa [Engine.setsOf_link] at this

theorem literals_enlist (w : Sweep) (s : Clause) : (w.enlist s).1.literals = s.literals := by
  unfold enlist
  split <;> rfl

theorem Tracks.enlist (h : w.Tracks e Q) {s : Clause} (hs : s ∈ e.support.toList) :
    (w.enlist s).2.Tracks e Q := by
  unfold Sweep.enlist
  split
  · exact h
  · refine ⟨⟨h.agrees.knowledge, h.agrees.goal, h.agrees.working, ?_⟩, h.candidates, h.doomed⟩
    show (w.engine.support.put _).sets = e.support.sets
    rw [ClauseTable.sets_put, h.agrees.support]
    have hmem : s.literals ∈ e.support.sets := ClauseTable.literals_mem_sets hs
    exact Set.insert_eq_of_mem hmem

theorem finds_pass (cs : List Clause) {s : Clause} (hs : s ∈ e.support.toList) (h : w.Tracks e Q)
    (hn : .empty ∉ Q) : Finds e (Q ∪ resolvents (setsOf cs) {s.literals}) (pass cs w s) := by
  unfold pass
  by_cases hcs : cs.isEmpty = true
  · rw [if_pos hcs, List.isEmpty_iff.1 hcs, setsOf_nil, resolvents_empty_left, Set.union_empty]
    exact ⟨h, hn⟩
  · rw [if_neg hcs]
    have hq : resolvents (setsOf cs) {s.literals} =
        {r | ∃ c ∈ cs, r ∈ resolvents {c.literals} {(w.enlist s).1.literals}} := by
      rw [literals_enlist]
      ext r
      simp only [mem_resolvents, mem_setsOf, Set.mem_ofPred_eq]
      grind
    rw [hq]
    exact finds_foldlM (fun c _ Q w => finds_meet (w := w) (Q := Q) _ c) (h.enlist hs) hn

/-- **The sweep of a round** goes through all resolvents, unless it finds the empty one. -/
theorem finds_all (e : Engine) :
    Finds e (resolvents e.working.sets e.support.sets) (Sweep.all e) := by
  have hq : resolvents e.working.sets e.support.sets =
      ∅ ∪ {r | ∃ s ∈ e.support.toList, r ∈ resolvents (setsOf e.working.toList) {s.literals}} := by
    rw [Set.empty_union]
    ext r
    simp only [mem_resolvents, ClauseTable.sets, mem_setsOf, Set.mem_ofPred_eq]
    grind
  rw [hq]
  exact finds_foldlM (fun s hs Q w => finds_pass (w := w) (Q := Q) _ hs) (tracks_start e) (by simp)

end Sweep

/-! ## Whole rounds -/

namespace Engine

variable {e e' : Engine} {n : Nat} {report : RoundReport}

/-- A round that goes through all resolvents: `new` are the clauses that it produces and `gone` those
that it takes out of the working set. -/
structure Completes (e : Engine) (new gone : ClauseTable) (report : RoundReport) (e' : Engine) :
    Prop where
  working : e'.working.sets = saturate e.working.sets e.support.sets
  produced : new.sets = produced e.working.sets e.support.sets
  removed : gone.sets = e.working.sets \ saturate e.working.sets e.support.sets
  entryProduced : report.entry.produced = new.toList.map Clause.name
  entryRemoved : report.entry.removed = gone.toList.map Clause.name
  productive : new.toList ≠ [] → report.ending = .productive ∧ e'.support = new
  stalled : new.toList = [] → report.ending = .stalled ∧ e'.support.sets = e.support.sets

theorem frame_round (h : e.round n = (report, e')) :
    e'.knowledge = e.knowledge ∧ e'.goal = e.goal := by
  have hall := Sweep.finds_all e
  unfold Engine.round at h
  cases hs : Sweep.all e with
  | error found =>
    rw [hs] at hall h
    cases h
    exact ⟨hall.2.knowledge, hall.2.goal⟩
  | ok w =>
    rw [hs] at hall h
    have hframe := hall.1.agrees
    dsimp only at h
    split at h <;> cases h <;> exact ⟨hframe.knowledge, hframe.goal⟩

/-- **A round with the empty resolvent** finds it. -/
theorem refuted_round (h : e.round n = (report, e'))
    (hempty : .empty ∈ resolvents e.working.sets e.support.sets) : ∃ i, report.ending = .refuted i := by
  have hall := Sweep.finds_all e
  unfold Engine.round at h
  cases hs : Sweep.all e with
  | error found =>
    rw [hs] at hall h
    cases h
    exact ⟨found.empty, rfl⟩
  | ok w =>
    rw [hs] at hall
    exact absurd hempty hall.2

/-- **A round without the empty resolvent** is a step of saturation. -/
theorem completes_round (h : e.round n = (report, e')) (hW : IsAntichain (· ⊆ ·) e.working.sets)
    (hempty : .empty ∉ resolvents e.working.sets e.support.sets) :
    ∃ new gone, e.Completes new gone report e' := by
  have hall := Sweep.finds_all e
  unfold Engine.round at h
  cases hs : Sweep.all e with
  | error found =>
    rw [hs] at hall
    exact absurd hall.1 hempty
  | ok w =>
    rw [hs] at hall h
    obtain ⟨ht, -⟩ := hall
    have hgone : w.doomed.sets = e.working.sets \ saturate e.working.sets e.support.sets := by
      rw [ht.doomed, sdiff_saturate hW]
    have hworking : (w.doomed.toList.foldl (fun t c => t.erase c.literals) w.engine.working).sets =
        e.working.sets \ (e.working.sets \ saturate e.working.sets e.support.sets) := by
      rw [ClauseTable.sets_foldl_erase, ht.agrees.working, ← hgone]
      rfl
    dsimp only at h
    generalize w.doomed.toList.foldl (fun t c => t.erase c.literals) w.engine.working = working
      at h hworking
    generalize hnew : w.candidates.filter (fun r => !working.contains r.literals) = new at h
    -- no candidate is in the working set, since it would be covered
    have hproduced : new.sets = Clausal.produced e.working.sets e.support.sets := by
      rw [produced_eq, ← ht.candidates, ← hnew]
      ext r
      rw [ClauseTable.mem_sets_filter, ClauseTable.mem_sets]
      refine exists_congr fun c => and_congr_right fun hc => and_iff_right ?_
      rw [Bool.not_eq_true', ClauseTable.contains_eq_false_iff, hworking]
      intro hcW
      have hcand : c.literals ∈ w.candidates.sets := ClauseTable.literals_mem_sets hc
      rw [ht.candidates] at hcand
      exact (minimals_subset hcand).2 (covered_of_mem hcW.1)
    have hunion : saturate e.working.sets e.support.sets = working.sets ∪ new.sets := by
      rw [hworking, hproduced]
      exact saturate_eq_union
    refine ⟨new, w.doomed, ?_⟩
    by_cases hempty : new.isEmpty = true
    · have hnil : new.toList = [] := List.isEmpty_iff.1 hempty
      rw [if_pos hempty] at h
      cases h
      refine ⟨?_, hproduced, hgone, rfl, rfl, fun hne => absurd hnil hne,
        fun _ => ⟨if_pos hempty, ht.agrees.support⟩⟩
      rw [hunion, ClauseTable.isEmpty_iff.1 hempty, Set.union_empty]
    · have hnil : new.toList ≠ [] := fun hnil => hempty (List.isEmpty_iff.2 hnil)
      rw [if_neg hempty] at h
      cases h
      refine ⟨?_, hproduced, hgone, rfl, rfl, fun _ => ⟨if_neg hempty, rfl⟩,
        fun hne => absurd hne hnil⟩
      rw [hunion]
      exact ClauseTable.sets_putAll

end Engine

end Clausal
