import Clausal.Proofs.Record

/-!
# What a round registers

Whatever the state of the engine is, a round only adds to its derivation: a clause of the support that is in no
derivation yet, and resolvents of a clause of the working set with one of the support.  Everything that a round brings
into the working set or the support is among them.

* `Engine.Offspring e new c`: where a clause that a round of `e` registers comes from;
* `Engine.Grows e new x`: the clauses `new` have been registered since the round of `e` began;
* `Engine.yields_round`: what is known of a whole round;
* `Engine.keeps_search`: from what is known of all rounds to what is known of a search.
-/

namespace Clausal

theorem Clause.mem_number {parents : List Int} {next : Int} {ls : List LiteralSet} {c : Clause}
    (hc : c ∈ Clause.number parents next ls) :
    c.literals ∈ ls ∧ c.parents = parents ∧ c.isTautology = false := by
  induction ls generalizing next with
  | nil => simp [Clause.number] at hc
  | cons s ls ih =>
    rw [Clause.number] at hc
    split at hc
    · obtain ⟨hmem, hrest⟩ := ih hc
      exact ⟨by simp [hmem], hrest⟩
    · rename_i hs
      rcases List.mem_cons.1 hc with rfl | hc
      · exact ⟨by simp, rfl, by simpa [Clause.isTautology] using hs⟩
      · obtain ⟨hmem, hrest⟩ := ih hc
        exact ⟨by simp [hmem], hrest⟩

namespace Engine

variable {e x : Engine} {new : List Clause} {c q s : Clause}

/-- The clause stands for one of the support that was in no derivation. -/
def Enlists (e : Engine) (c : Clause) : Prop :=
  ∃ s ∈ e.support.toList, s.places = [] ∧ c.literals = s.literals ∧ c.parents = s.parents

/-- The clause is one of the support as a round resolves with it: it was registered before, or it is one of the clauses
`new` that the round has registered. -/
def Supports (e : Engine) (new : List Clause) (q : Clause) : Prop :=
  (q ∈ e.support.toList ∧ q.places ≠ []) ∨ (q ∈ new ∧ e.Enlists q)

/-- Where a clause comes from that a round of `e` registers. -/
inductive Offspring (e : Engine) (new : List Clause) (c : Clause) : Prop
  | enlisted (h : e.Enlists c)
  | resolvent {p q : Clause} (hp : p ∈ e.working.toList) (hq : e.Supports new q)
      (hparents : c.parents = [p.index, q.index]) (hresolves : c.Resolves p q) (hproper : c.isTautology = false)

theorem Supports.append (h : e.Supports new q) (more : List Clause) : e.Supports (new ++ more) q :=
  h.imp_right fun ⟨hmem, henlists⟩ => ⟨List.mem_append_left _ hmem, henlists⟩

theorem Offspring.append (h : e.Offspring new c) (more : List Clause) : e.Offspring (new ++ more) c := by
  cases h with
  | enlisted h => exact .enlisted h
  | resolvent hp hq hparents hresolves hproper => exact .resolvent hp (hq.append more) hparents hresolves hproper

/-- It makes no difference where a clause is registered. -/
theorem Offspring.placed (h : e.Offspring new c) (places : List Place) : e.Offspring new { c with places } := by
  cases h with
  | enlisted h => exact .enlisted h
  | resolvent hp hq hparents hresolves hproper => exact .resolvent hp hq hparents hresolves hproper

/-- In the middle of a round of `e`, after the clauses `new` have been registered. -/
structure Grows (e : Engine) (new : List Clause) (x : Engine) : Prop where
  steady : e.Steady x
  working : x.working = e.working
  support : ∀ s ∈ x.support.toList, s ∈ e.support.toList ∨ s ∈ new
  toList : x.derivation.toList = e.derivation.toList ++ new
  places : ∀ (i : Nat) (c : Clause), new[i]? = some c →
    c.places = [⟨e.derivation.number, e.derivation.toList.length + i⟩]
  offspring : ∀ c ∈ new, e.Offspring new c

theorem Grows.refl (e : Engine) : e.Grows [] e :=
  ⟨.refl e, rfl, fun _ hs => .inl hs, by simp, by simp, by simp⟩

/-- **One clause more.** -/
theorem Grows.register (h : e.Grows new x) (hplaces : c.places = []) (hc : e.Offspring new c) :
    e.Grows (new ++ [(x.register c).1]) (x.register c).2 := by
  have hsteady := h.steady.trans (persistent_steady.register x hplaces)
  refine ⟨hsteady, h.working, fun s hs => ?_, ?_, fun i d hd => ?_, fun d hd => ?_⟩
  · exact (h.support s hs).imp_right (List.mem_append_left _)
  · have hlist : (x.register c).2.derivation.toList = x.derivation.toList ++ [(x.register c).1] :=
      Derivation.toList_register hplaces
    rw [hlist, h.toList, List.append_assoc]
  · rcases getElem?_snoc hd with hd | ⟨rfl, rfl⟩
    · exact h.places i d hd
    · have hsize : x.derivation.size = e.derivation.toList.length + new.length := by
        rw [Derivation.size_eq, h.toList, List.length_append]
      rw [places_register x hplaces, Derivation.nextPlace, h.steady.number, hsize]
  · rcases List.mem_append.1 hd with hd | hd
    · exact (h.offspring d hd).append _
    · rw [List.mem_singleton.1 hd]
      exact (hc.placed _).append _

theorem Grows.registerAll (h : e.Grows new x) {cs : List Clause} (hplaces : ∀ c ∈ cs, c.places = [])
    (hcs : ∀ c ∈ cs, e.Offspring new c) : e.Grows (new ++ (x.registerAll cs).1) (x.registerAll cs).2 := by
  induction cs generalizing new x with
  | nil => simpa [Engine.registerAll] using h
  | cons c cs ih =>
    have hfirst := h.register (hplaces c (by simp)) (hcs c (by simp))
    rw [registerAll_cons, List.append_cons]
    refine ih hfirst (fun d hd => hplaces d (by simp [hd])) fun d hd => ?_
    exact (hcs d (by simp [hd])).append _

/-- The resolvents of a clause of the working set with one of the support. -/
theorem Grows.link (h : e.Grows new x) (hc : c ∈ e.working.toList) (hs : e.Supports new s) :
    e.Grows (new ++ (x.link c s).1) (x.link c s).2 := by
  have hcount : e.Grows new { x with counter := x.counter + (c.literals.leftovers s.literals).length } :=
    ⟨⟨h.steady.knowledge, h.steady.number, h.steady.earlier⟩, h.working, h.support, h.toList, h.places, h.offspring⟩
  refine hcount.registerAll (fun r hr => Clause.places_number hr) fun r hr => ?_
  obtain ⟨hliterals, hparents, hproper⟩ := Clause.mem_number hr
  obtain ⟨l, hl, hl', hresolvent⟩ := LiteralSet.mem_leftovers.1 hliterals
  exact .resolvent hc hs hparents ⟨l, hl, hl', hresolvent⟩ hproper

end Engine

/-! ## Rounds -/

namespace Sweep

variable {e : Engine} {new : List Clause} {w : Sweep} {c s : Clause}

/-- The sweep of a round of `e`, whose candidates are among the clauses registered. -/
structure Grows (e : Engine) (new : List Clause) (w : Sweep) : Prop where
  engine : e.Grows new w.engine
  candidates : w.candidates.toList ⊆ new

/-- What is known of a part of a sweep after the clauses `new`, also if it stops at the empty clause. -/
def Spreads (e : Engine) (new : List Clause) : Except Refutation Sweep → Prop :=
  Ensures (fun w => ∃ more, w.Grows e (new ++ more)) fun found =>
    ∃ more, e.Grows (new ++ more) found.engine ∧ ∃ c ∈ new ++ more, c.index = found.empty ∧ c.literals = .empty

theorem Grows.consider (h : w.Grows e new) {r : Clause} (hr : r ∈ new) : (w.consider r).Grows e new := by
  refine ⟨engine_consider w r ▸ h.engine, ?_⟩
  unfold Sweep.consider
  split
  · exact h.candidates
  · cases habs : w.candidates.absorb r with
    | none => exact h.candidates
    | some result =>
      intro d hd
      rcases ClauseTable.mem_or_eq_of_absorb habs hd with hd | rfl
      · exact h.candidates hd
      · exact hr

theorem spreads_sift (h : w.Grows e new) {rs : List Clause} (hrs : rs ⊆ new) :
    Ensures (Grows e new) (fun found => e.Grows new found.engine ∧
      ∃ c ∈ new, c.index = found.empty ∧ c.literals = .empty) (w.sift c s rs) := by
  induction rs generalizing w with
  | nil => exact h
  | cons r rs ih =>
    have hr : r ∈ new := hrs (by simp)
    rw [sift]
    split
    · rename_i hempty
      exact ⟨h.engine, r, hr, rfl, LiteralSet.isEmpty_iff.1 hempty⟩
    · exact ih (h.consider hr) fun d hd => hrs (by simp [hd])

theorem spreads_meet (h : w.Grows e new) (hc : c ∈ e.working.toList) (hs : e.Supports new s) :
    Spreads e new (meet s w c) := by
  have hlink := h.engine.link hc hs
  have hsift := spreads_sift (c := c) (s := s) (w := { w with engine := (w.engine.link c s).2 })
    ⟨hlink, List.subset_append_of_subset_left _ h.candidates⟩ (List.subset_append_right _ _)
  exact hsift.imp (fun _ hw => ⟨_, hw⟩) fun _ hfound => ⟨_, hfound⟩

/-- A clause of the support is registered before it is resolved with others. -/
theorem Grows.enlist (h : w.Grows e new) (hs : s ∈ e.support.toList) :
    ∃ more, (w.enlist s).2.Grows e (new ++ more) ∧ e.Supports (new ++ more) (w.enlist s).1 := by
  unfold Sweep.enlist
  cases hi : s.index? with
  | some i =>
    refine ⟨[], by simpa using h, .inl ⟨hs, fun hplaces => ?_⟩⟩
    rw [Clause.index?_eq_none_iff.2 hplaces] at hi
    cases hi
  | none =>
    have hplaces := Clause.index?_eq_none_iff.1 hi
    have hlist : e.Enlists (w.engine.register s).1 := ⟨s, hs, hplaces, rfl, rfl⟩
    have hgrows := h.engine.register hplaces (.enlisted ⟨s, hs, hplaces, rfl, rfl⟩)
    refine ⟨[(w.engine.register s).1], ⟨⟨?_, hgrows.working, fun d hd => ?_, hgrows.toList, hgrows.places,
      hgrows.offspring⟩, List.subset_append_of_subset_left _ h.candidates⟩, .inr ⟨by simp, hlist⟩⟩
    · exact ⟨hgrows.steady.knowledge, hgrows.steady.number, hgrows.steady.earlier⟩
    · rcases ClauseTable.mem_or_eq_of_mem_put hd with hd | rfl
      · exact hgrows.support d hd
      · exact .inr (by simp)

theorem Spreads.of_append {more : List Clause} {result : Except Refutation Sweep} (h : Spreads e (new ++ more) result) :
    Spreads e new result := by
  refine Ensures.imp h ?_ ?_
  · rintro w ⟨more', hw⟩
    exact ⟨more ++ more', by rwa [← List.append_assoc]⟩
  · rintro found ⟨more', hfound⟩
    exact ⟨more ++ more', by rwa [← List.append_assoc]⟩

/-- **A loop of a sweep.**  If each pass only adds, so do all of them. -/
theorem spreads_foldlM {α : Type} {f : Sweep → α → Except Refutation Sweep} {as : List α}
    (hstep : ∀ a ∈ as, ∀ more w, w.Grows e (new ++ more) → Spreads e (new ++ more) (f w a)) (h : w.Grows e new) :
    Spreads e new (as.foldlM f w) := by
  refine ensures_foldlM (fun a ha w hw => ?_) ⟨[], by simpa using h⟩
  obtain ⟨more, hw⟩ := hw
  exact (hstep a ha more w hw).of_append

theorem spreads_pass (h : w.Grows e new) (hs : s ∈ e.support.toList) :
    Spreads e new (pass e.working.toList w s) := by
  unfold pass
  split
  · exact ⟨[], by simpa using h⟩
  · obtain ⟨more, hw, hsupports⟩ := h.enlist hs
    have hmeets : Spreads e (new ++ more) (e.working.toList.foldlM (meet (w.enlist s).1) (w.enlist s).2) := by
      apply spreads_foldlM _ hw
      intro c hc _ v hv
      exact spreads_meet hv hc (hsupports.append _)
    exact hmeets.of_append

theorem spreads_all (e : Engine) : Spreads e [] (Sweep.all e) :=
  spreads_foldlM (fun _ hs _ _ hw => spreads_pass hw hs) ⟨.refl e, by simp⟩

end Sweep

namespace Engine

variable {e e' : Engine} {n : Nat} {report : RoundReport}

/-- A round of `e` that registers the clauses `new`, and all that it can bring about with them. -/
structure Yields (e : Engine) (new : List Clause) (report : RoundReport) (e' : Engine) : Prop where
  steady : e.Steady e'
  toList : e'.derivation.toList = e.derivation.toList ++ new
  places : ∀ (i : Nat) (c : Clause), new[i]? = some c →
    c.places = [⟨e.derivation.number, e.derivation.toList.length + i⟩]
  offspring : ∀ c ∈ new, e.Offspring new c
  working : ∀ c ∈ e'.working.toList, c ∈ e.working.toList ∨ c ∈ new
  support : ∀ c ∈ e'.support.toList, c ∈ e.support.toList ∨ c ∈ new
  productive : report.ending = .productive → ∀ c ∈ e'.support.toList, c ∈ new ∧ c ∈ e'.working.toList
  refuted : ∀ i, report.ending = .refuted i → ∃ c ∈ new, c.index = i ∧ c.literals = .empty

/-- **A round only adds to the derivation.** -/
theorem yields_round (h : e.round n = (report, e')) : ∃ new, e.Yields new report e' := by
  have hall := Sweep.spreads_all e
  unfold Engine.round at h
  cases hs : Sweep.all e with
  | error found =>
    rw [hs] at hall h
    cases h
    obtain ⟨new, hgrows, hempty⟩ := hall
    rw [List.nil_append] at hgrows hempty
    refine ⟨new, hgrows.steady, hgrows.toList, hgrows.places, hgrows.offspring, fun c hc => ?_, hgrows.support,
      fun hending => ?_, fun i hi => ?_⟩
    · exact .inl (hgrows.working ▸ hc)
    · cases hending
    · cases hi
      exact hempty
  | ok w =>
    rw [hs] at hall h
    obtain ⟨new, hgrows, hcandidates⟩ := hall
    rw [List.nil_append] at hgrows hcandidates
    have hworking : (w.doomed.toList.foldl (fun t c => t.erase c.literals) w.engine.working).toList ⊆
        e.working.toList :=
      fun c hc => hgrows.working ▸ ClauseTable.mem_of_mem_foldl_erase hc
    dsimp only at h
    generalize w.doomed.toList.foldl (fun t c => t.erase c.literals) w.engine.working = working at h hworking
    generalize hproduced : w.candidates.filter (fun r => !working.contains r.literals) = produced at h
    have hnew : produced.toList ⊆ new := by
      intro c hc
      rw [← hproduced] at hc
      exact hcandidates (List.mem_of_mem_filter hc)
    have hsteady : ∀ support working, e.Steady { w.engine with support, working } :=
      fun _ _ => ⟨hgrows.steady.knowledge, hgrows.steady.number, hgrows.steady.earlier⟩
    split at h
    · rename_i hempty
      cases h
      refine ⟨new, hsteady _ _, hgrows.toList, hgrows.places, hgrows.offspring, fun c hc => .inl (hworking hc),
        hgrows.support, fun hending => ?_, fun i hi => ?_⟩
      · simp at hending
      · simp at hi
    · rename_i hempty
      cases h
      -- what is produced is not in the working set yet, and goes to its end
      have hput : (working.putAll produced.toList).toList = working.toList ++ produced.toList := by
        refine ClauseTable.toList_putAll (List.pairwise_append.2 ⟨working.distinct, produced.distinct, ?_⟩)
        intro c hc d hd heq
        rw [← hproduced] at hd
        have hout := (List.mem_filter.1 hd).2
        rw [Bool.not_eq_true', ClauseTable.contains_eq_false_iff] at hout
        exact hout (heq ▸ ClauseTable.literals_mem_sets hc)
      refine ⟨new, hsteady _ _, hgrows.toList, hgrows.places, hgrows.offspring, fun c hc => ?_,
        fun c hc => .inr (hnew hc), fun _ c hc => ⟨hnew hc, ?_⟩, fun i hi => ?_⟩
      · exact (ClauseTable.mem_or_mem_of_mem_putAll hc).imp (@hworking c) (@hnew c)
      · rw [hput]
        exact List.mem_append_right _ hc
      · simp at hi

/-- A round in which the support is registered only adds resolvents. -/
theorem Yields.resolvent {new : List Clause} {c : Clause} (h : e.Yields new report e')
    (hregistered : ∀ s ∈ e.support.toList, s.places ≠ []) (hc : c ∈ new) :
    ∃ p ∈ e.working.toList, ∃ q ∈ e.support.toList, c.parents = [p.index, q.index] ∧ c.Resolves p q ∧
      c.isTautology = false := by
  have hnone : ∀ d, ¬e.Enlists d := by
    rintro d ⟨s, hs, hplaces, -⟩
    exact hregistered s hs hplaces
  cases h.offspring c hc with
  | enlisted henlists => exact absurd henlists (hnone c)
  | @resolvent p q hp hq hparents hresolves hproper =>
    rcases hq with ⟨hq, -⟩ | ⟨-, henlists⟩
    · exact ⟨p, hp, q, hq, hparents, hresolves, hproper⟩
    · exact absurd henlists (hnone q)

/-! ## Searches -/

/-- **What every round keeps up, a search keeps up**, and what is known of the empty clause when a round finds it is
known when the search does. -/
theorem keeps_search {P : Engine → Prop} {Q : Engine → Int → Prop} {limit pause : Option Int} {fuel : Nat}
    {past laps : List Lap} {stop : Stop}
    (hround : ∀ {e e' : Engine} {n : Nat} {report : RoundReport}, P e → e.round n = (report, e') →
      P e' ∧ ∀ i, report.ending = .refuted i → Q e' i)
    (h : P e) (hs : search limit pause fuel e past = (stop, e', laps)) :
    P e' ∧ ∀ i, stop = .decided (.proven i) → Q e' i := by
  induction fuel generalizing e past with
  | zero =>
    cases hs
    exact ⟨h, by simp⟩
  | succ fuel ih =>
    cases advances limit e past with
    | limit _ hnext =>
      rw [hnext] at hs
      cases hs
      exact ⟨h, by simp⟩
    | refuted hresult hend hnext =>
      obtain ⟨hkept, hfound⟩ := hround h hresult
      rw [hnext] at hs
      cases hs
      refine ⟨hkept, fun j hj => ?_⟩
      cases hj
      exact hfound _ hend
    | stalled hresult _ hnext =>
      obtain ⟨hkept, -⟩ := hround h hresult
      rw [hnext] at hs
      split at hs <;> cases hs <;> exact ⟨hkept, by simp⟩
    | productive hresult _ hnext =>
      obtain ⟨hkept, -⟩ := hround h hresult
      rw [hnext] at hs
      split at hs
      · cases hs
        exact ⟨hkept, by simp⟩
      · exact ih hkept hs

end Engine

end Clausal
