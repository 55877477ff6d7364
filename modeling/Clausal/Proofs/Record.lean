import Clausal.Proofs.Archive

/-!
# The record of a run

While a run goes on, its derivation grows by resolvents of what it has: each is registered at the end, names its
two parents, which came before, and has the next free number (`Recorded`).  Everything in the working set and in
the support is registered, so the next resolvents are again of this kind:

* `Engine.Recording`: the derivation of the engine is such a record;
* `Engine.Recording.round`: a round goes on with the record;
* `Engine.recorded_run`: a run that proves its goal has registered the empty clause.
-/

namespace Clausal

/-- The clause is what is left of two others that clash on a literal. -/
def Clause.Resolves (c p q : Clause) : Prop :=
  ∃ l, l ∈ p.literals ∧ l.complement ∈ q.literals ∧ c.literals = p.literals.resolvent q.literals l

/-- The clause is derived from two clauses of a list, and names them by their positions. -/
def Clause.FollowsFrom (c : Clause) (d : List Clause) : Prop :=
  ∃ (a b : Nat) (p q : Clause), d[a]? = some p ∧ d[b]? = some q ∧ c.parents = [(a : Int), (b : Int)] ∧
    c.Resolves p q

/-- A record that begins with the clauses `base` and goes on with derived clauses, which are numbered from `first`
on.  The last argument is the next number; numbers may be left out. -/
inductive Recorded (base : List Clause) (first : Int) : List Clause → Int → Prop
  | opening (hindex : ∀ (i : Nat) (c : Clause), base[i]? = some c → c.index? = some i) :
      Recorded base first base first
  | skip {d : List Clause} {n m : Int} (h : Recorded base first d n) (hle : n ≤ m) :
      Recorded base first d m
  | snoc {d : List Clause} {n : Int} {c : Clause} (h : Recorded base first d n)
      (hindex : c.index? = some d.length) (hfollows : c.FollowsFrom d) (hid : c.id = n) :
      Recorded base first (d ++ [c]) (n + 1)

section Snoc

variable {α : Type} {d : List α} {c x : α} {i : Nat}

theorem getElem?_snoc (h : (d ++ [c])[i]? = some x) : d[i]? = some x ∨ (i = d.length ∧ x = c) := by
  rw [List.getElem?_append] at h
  split at h
  · exact .inl h
  · obtain ⟨hi, rfl⟩ := List.getElem?_eq_some_iff.1 h
    simp only [List.length_singleton] at hi
    exact .inr ⟨by omega, by simp⟩

theorem lt_of_getElem? (h : d[i]? = some x) : i < d.length := (List.getElem?_eq_some_iff.1 h).1

theorem getElem?_append_of_some (e : List α) (h : d[i]? = some x) : (d ++ e)[i]? = some x := by
  rw [List.getElem?_append_left (lt_of_getElem? h), h]

end Snoc

namespace Recorded

variable {base d : List Clause} {first n : Int} {c p : Clause} {i j : Nat}

theorem first_le (h : Recorded base first d n) : first ≤ n := by
  induction h with
  | opening => exact le_refl _
  | skip _ hle ih => omega
  | snoc _ _ _ _ ih => omega

/-- A clause is registered where it stands. -/
theorem index (h : Recorded base first d n) (hc : d[i]? = some c) : c.index? = some i := by
  induction h generalizing i c with
  | opening hindex => exact hindex i c hc
  | skip _ _ ih => exact ih hc
  | snoc _ hindex _ _ ih =>
    rcases getElem?_snoc hc with hc | ⟨rfl, rfl⟩
    · exact ih hc
    · exact hindex

theorem exists_index (h : Recorded base first d n) (hc : c ∈ d) :
    ∃ i : Nat, d[i]? = some c ∧ c.index = i := by
  obtain ⟨i, hi, rfl⟩ := List.mem_iff_getElem.1 hc
  have hsome : d[i]? = some d[i] := List.getElem?_eq_getElem hi
  refine ⟨i, hsome, ?_⟩
  rw [Clause.index, h.index hsome]

/-- A clause is one of those at the beginning, or it was derived from earlier ones. -/
theorem asserted_or_derived (h : Recorded base first d n) (hc : d[i]? = some c) :
    base[i]? = some c ∨ (base.length ≤ i ∧ first ≤ c.id ∧ c.id < n ∧ c.FollowsFrom (d.take i)) := by
  induction h generalizing i c with
  | opening => exact .inl hc
  | skip _ hle ih => exact (ih hc).imp_right fun ⟨hi, hfirst, hlt, hfollows⟩ => ⟨hi, hfirst, by omega, hfollows⟩
  | @snoc d n b h hindex hfollows hid ih =>
    have hbase : base.length ≤ d.length := by
      clear ih hindex hfollows hid hc
      induction h with
      | opening => exact le_refl _
      | skip _ _ ih => exact ih
      | snoc _ _ _ _ ih =>
        rw [List.length_append]
        omega
    rcases getElem?_snoc hc with hc | ⟨rfl, rfl⟩
    · rw [List.take_append_of_le_length (lt_of_getElem? hc).le]
      exact (ih hc).imp_right fun ⟨hi, hfirst, hlt, hfollows⟩ => ⟨hi, hfirst, by omega, hfollows⟩
    · have := h.first_le
      refine .inr ⟨hbase, by omega, by omega, ?_⟩
      rwa [List.take_left]

/-- A derived clause has a greater number than all that came before it. -/
theorem id_lt (h : Recorded base first d n) (hbase : ∀ c ∈ base, c.id < first) (hp : d[i]? = some p)
    (hc : d[j]? = some c) (hij : i < j) (hj : base.length ≤ j) : p.id < c.id := by
  induction h generalizing i j p c with
  | opening =>
    have := lt_of_getElem? hc
    omega
  | skip _ _ ih => exact ih hp hc hij hj
  | snoc h _ _ hid ih =>
    have hi := lt_of_getElem? hc
    rcases getElem?_snoc hc with hc | ⟨rfl, rfl⟩
    · refine ih ?_ hc hij hj
      exact (getElem?_snoc hp).resolve_right fun hlast => by
        have := lt_of_getElem? hc
        omega
    · have hp := (getElem?_snoc hp).resolve_right fun hlast => by omega
      have := h.first_le
      rcases h.asserted_or_derived hp with hp | ⟨-, -, hlt, -⟩
      · have := hbase p (List.mem_of_getElem? hp)
        omega
      · omega

/-- **Resolvents of two recorded clauses** go on with the record, tautologies apart. -/
theorem registerAll {e : Engine} {a b : Nat} {q : Clause} {ls : List LiteralSet}
    (h : Recorded base first e.derivation.toList n) (hp : e.derivation.toList[a]? = some p)
    (hq : e.derivation.toList[b]? = some q) (hls : ∀ r ∈ ls, r ∈ p.literals.leftovers q.literals) :
    Recorded base first (e.registerAll (Clause.number [(a : Int), (b : Int)] n ls)).2.derivation.toList
      (n + ls.length) := by
  induction ls generalizing e n with
  | nil => exact h.skip (by simp)
  | cons r ls ih =>
    have hrest : ∀ s ∈ ls, s ∈ p.literals.leftovers q.literals := fun s hs => hls s (by simp [hs])
    rw [Clause.number, show n + (r :: ls).length = n + 1 + ls.length by
      rw [List.length_cons]; push_cast; omega]
    split
    · exact ih (h.skip (by omega)) hp hq hrest
    · obtain ⟨l, hl, hl', hr⟩ := LiteralSet.mem_leftovers.1 (hls r (by simp))
      let c : Clause := { literals := r, id := n, parents := [(a : Int), (b : Int)] }
      have hlist : (e.register c).2.derivation.toList = e.derivation.toList ++ [(e.register c).1] :=
        Derivation.toList_register rfl
      rw [Engine.registerAll_cons]
      refine ih ?_ ?_ ?_ hrest
      · rw [hlist]
        refine h.snoc ?_ ⟨a, b, p, q, hp, hq, rfl, l, hl, hl', hr⟩ rfl
        rw [← Derivation.size_eq]
        rfl
      · rw [hlist]
        exact getElem?_append_of_some _ hp
      · rw [hlist]
        exact getElem?_append_of_some _ hq

end Recorded

/-! ## Rounds -/

namespace Engine

variable {base : List Clause} {first : Int} {e : Engine} {c s : Clause}

/-- The derivation of the engine is a record, which has all clauses that the next round can resolve. -/
structure Recording (base : List Clause) (first : Int) (e : Engine) : Prop where
  record : Recorded base first e.derivation.toList e.counter
  working : e.working.toList ⊆ e.derivation.toList
  support : e.support.toList ⊆ e.derivation.toList

theorem toList_link (e : Engine) (c d : Clause) :
    (e.link c d).2.derivation.toList = e.derivation.toList ++ (e.link c d).1 := by
  unfold link
  rw [toList_registerAll]
  intro r hr
  simp [Clause.places_number hr]

theorem link_frame (e : Engine) (c d : Clause) :
    (e.link c d).2.support = e.support ∧ (e.link c d).2.working = e.working :=
  ⟨(registers_registerAll _ _).support, (registers_registerAll _ _).working⟩

theorem Recording.link (h : e.Recording base first) (hc : c ∈ e.derivation.toList)
    (hs : s ∈ e.derivation.toList) : (e.link c s).2.Recording base first := by
  obtain ⟨a, ha, hca⟩ := h.record.exists_index hc
  obtain ⟨b, hb, hsb⟩ := h.record.exists_index hs
  have hgrows : e.derivation.toList ⊆ (e.link c s).2.derivation.toList := by
    rw [toList_link]
    exact List.subset_append_left _ _
  obtain ⟨hsupport, hworking⟩ := link_frame e c s
  refine ⟨?_, ?_, ?_⟩
  · have hrecord := h.record.registerAll (e := { e with
      counter := e.counter + (c.literals.leftovers s.literals).length }) ha hb fun _ hr => hr
    unfold Engine.link
    rw [(registers_registerAll _ _).counter, hca, hsb]
    exact hrecord
  · rw [hworking]
    exact List.Subset.trans h.working hgrows
  · rw [hsupport]
    exact List.Subset.trans h.support hgrows

/-- The empty clause is on the record of the engine, at a position. -/
def HasEmpty (e : Engine) (i : Int) : Prop :=
  ∃ c ∈ e.derivation.toList, c.index = i ∧ c.literals = .empty

end Engine

namespace Sweep

variable {base : List Clause} {first : Int} {e : Engine} {w : Sweep} {c s : Clause}

/-- The sweep of a round of `e` goes on with the record; its candidates are there. -/
structure Recording (base : List Clause) (first : Int) (e : Engine) (w : Sweep) : Prop where
  engine : w.engine.Recording base first
  working : w.engine.working = e.working
  support : w.engine.support = e.support
  candidates : w.candidates.toList ⊆ w.engine.derivation.toList

/-- What is known of a part of a sweep, also if it stops at the empty clause. -/
def Continues (base : List Clause) (first : Int) (e : Engine) : Except Refutation Sweep → Prop :=
  Ensures (Recording base first e) fun found =>
    found.engine.Recording base first ∧ found.engine.HasEmpty found.empty

theorem Recording.consider (h : w.Recording base first e) {r : Clause}
    (hr : r ∈ w.engine.derivation.toList) : (w.consider r).Recording base first e := by
  unfold Sweep.consider
  split
  · exact ⟨h.engine, h.working, h.support, h.candidates⟩
  · cases habs : w.candidates.absorb r with
    | none => exact h
    | some result =>
      obtain ⟨out, candidates⟩ := result
      refine ⟨h.engine, h.working, h.support, fun d hd => ?_⟩
      rcases ClauseTable.mem_or_eq_of_absorb habs hd with hd | rfl
      · exact h.candidates hd
      · exact hr

theorem continues_sift (h : w.Recording base first e) {rs : List Clause}
    (hrs : rs ⊆ w.engine.derivation.toList) : Continues base first e (w.sift c s rs) := by
  induction rs generalizing w with
  | nil => exact h
  | cons r rs ih =>
    have hr : r ∈ w.engine.derivation.toList := hrs (by simp)
    rw [sift]
    split
    · rename_i hempty
      exact ⟨h.engine, r, hr, rfl, LiteralSet.isEmpty_iff.1 hempty⟩
    · refine ih (h.consider hr) fun d hd => ?_
      rw [engine_consider]
      exact hrs (by simp [hd])

theorem continues_meet (h : w.Recording base first e) (hc : c ∈ e.working.toList)
    (hs : s ∈ e.support.toList) : Continues base first e (meet s w c) := by
  have hc' : c ∈ w.engine.derivation.toList := h.engine.working (h.working ▸ hc)
  have hs' : s ∈ w.engine.derivation.toList := h.engine.support (h.support ▸ hs)
  have hlist := Engine.toList_link w.engine c s
  have hlink := h.engine.link hc' hs'
  obtain ⟨hsupport, hworking⟩ := Engine.link_frame w.engine c s
  refine continues_sift ⟨hlink, hworking.trans h.working, hsupport.trans h.support, ?_⟩ ?_
  · show w.candidates.toList ⊆ (w.engine.link c s).2.derivation.toList
    rw [hlist]
    exact List.subset_append_of_subset_left _ h.candidates
  · show (w.engine.link c s).1 ⊆ (w.engine.link c s).2.derivation.toList
    rw [hlist]
    exact List.subset_append_right _ _

theorem enlist_of_registered (w : Sweep) {i : Nat} (h : s.index? = some i) : w.enlist s = (s, w) := by
  rw [enlist, h]

theorem continues_all (h : e.Recording base first) : Continues base first e (Sweep.all e) := by
  refine ensures_foldlM (fun s hs w hw => ?_) ⟨h, rfl, rfl, by simp⟩
  unfold pass
  split
  · exact hw
  · -- the support is registered since the beginning of the round
    have hmem : s ∈ w.engine.derivation.toList := hw.engine.support (hw.support ▸ hs)
    obtain ⟨i, hi, -⟩ := hw.engine.record.exists_index hmem
    rw [enlist_of_registered w (hw.engine.record.index hi)]
    exact ensures_foldlM (fun c hc w hw => continues_meet hw hc hs) hw

end Sweep

namespace Engine

variable {base : List Clause} {first : Int} {e e' : Engine} {n : Nat} {report : RoundReport}

/-- **A round** goes on with the record, and registers the empty clause if it finds it. -/
theorem Recording.round (h : e.Recording base first) (hround : e.round n = (report, e')) :
    e'.Recording base first ∧ ∀ i, report.ending = .refuted i → e'.HasEmpty i := by
  have hall := Sweep.continues_all h
  unfold Engine.round at hround
  cases hs : Sweep.all e with
  | error found =>
    rw [hs] at hall hround
    cases hround
    refine ⟨hall.1, fun i hi => ?_⟩
    cases hi
    exact hall.2
  | ok w =>
    rw [hs] at hall hround
    have hworking : (w.doomed.toList.foldl (fun t c => t.erase c.literals) w.engine.working).toList ⊆
        w.engine.derivation.toList :=
      fun c hc => hall.engine.working (ClauseTable.mem_of_mem_foldl_erase hc)
    dsimp only at hround
    generalize w.doomed.toList.foldl (fun t c => t.erase c.literals) w.engine.working = working
      at hround hworking
    generalize hnew : w.candidates.filter (fun r => !working.contains r.literals) = new at hround
    have hproduced : new.toList ⊆ w.engine.derivation.toList := by
      intro c hc
      rw [← hnew] at hc
      exact hall.candidates (List.mem_of_mem_filter hc)
    split at hround
    · rename_i hempty
      cases hround
      refine ⟨⟨hall.engine.record, hworking, hall.engine.support⟩, fun i hi => ?_⟩
      simp at hi
    · rename_i hempty
      cases hround
      refine ⟨⟨hall.engine.record, fun c hc => ?_, hproduced⟩, fun i hi => ?_⟩
      · rcases ClauseTable.mem_or_mem_of_mem_putAll hc with hc | hc
        · exact hworking hc
        · exact hproduced hc
      · simp at hi

theorem Recording.rounds {e₀ : Engine} {laps : List Lap} (h : e₀.Recording base first)
    (hr : Rounds e₀ laps e) : e.Recording base first := by
  induction hr with
  | nil => exact h
  | snoc _ hround _ ih => exact (ih.round hround).1

/-! ## Whole runs -/

theorem recording_start (h : e.Filed) :
    e.start.2.Recording e.start.2.derivation.toList e.counter := by
  have ho := opens_start h
  refine ⟨?_, ho.working_subset, ?_⟩
  · rw [ho.counter]
    exact .opening ho.index
  · rw [ho.toList]
    exact List.subset_append_right _ _

theorem mem_of_findConflict {units cs : List Clause} {c d : Clause}
    (h : findConflict units cs = some (c, d)) : c ∈ units ++ cs ∧ d ∈ cs ∧
      ∃ l : Literal, d.literals = .singleton l ∧ c.literals = .singleton l.complement := by
  induction cs generalizing units with
  | nil => simp [findConflict] at h
  | cons b cs ih =>
    have hlater : ∀ {us : List Clause}, us ⊆ units ++ [b] → findConflict us cs = some (c, d) →
        c ∈ units ++ b :: cs ∧ d ∈ b :: cs ∧
          ∃ l : Literal, d.literals = .singleton l ∧ c.literals = .singleton l.complement := by
      intro us hus hfind
      obtain ⟨hc, hd, hl⟩ := ih hfind
      refine ⟨?_, by simp [hd], hl⟩
      rcases List.mem_append.1 hc with hc | hc
      · have := hus hc
        simp at this ⊢
        tauto
      · simp [hc]
    rw [findConflict] at h
    split at h
    · rename_i l hl
      cases hfind : units.find? fun d => d.literals == .singleton l.complement with
      | some u =>
        rw [hfind] at h
        cases h
        refine ⟨by simp [List.mem_of_find?_eq_some hfind], by simp, l, LiteralSet.toList_inj.1 hl, ?_⟩
        simpa using List.find?_some hfind
      | none =>
        rw [hfind] at h
        exact hlater (by simp) h
    · exact hlater (by simp) h

theorem toList_registerConflict (e : Engine) (c d : Clause) :
    (e.registerConflict c d).2.derivation.toList = e.derivation.toList ++ [(e.registerConflict c d).1] :=
  Derivation.toList_register rfl

theorem recorded_registerConflict {c d : Clause} {l : Literal} (h : e.Recording base first)
    (hc : c ∈ e.derivation.toList) (hd : d ∈ e.derivation.toList) (hdl : d.literals = .singleton l)
    (hcl : c.literals = .singleton l.complement) :
    Recorded base first (e.registerConflict c d).2.derivation.toList (e.counter + 1) ∧
      (e.registerConflict c d).2.HasEmpty (e.registerConflict c d).1.index := by
  obtain ⟨a, ha, hca⟩ := h.record.exists_index hc
  obtain ⟨b, hb, hdb⟩ := h.record.exists_index hd
  have hlist := toList_registerConflict e c d
  have hempty : LiteralSet.empty = c.literals.resolvent d.literals l.complement := by
    refine LiteralSet.ext fun m => ?_
    rw [LiteralSet.mem_resolvent, hcl, hdl, Literal.complement_complement]
    simp
  refine ⟨?_, (e.registerConflict c d).1, by simp [hlist], rfl, rfl⟩
  rw [hlist]
  refine h.record.snoc ?_ ⟨a, b, c, d, ha, hb, ?_, l.complement, ?_, ?_, hempty⟩ rfl
  · rw [← Derivation.size_eq]
    rfl
  · rw [← hca, ← hdb]
    rfl
  · rw [hcl]
    simp
  · rw [hdl, Literal.complement_complement]
    simp

/-- Clauses that are in conflict are registered when the run begins. -/
theorem Filed.mem_of_conflict {c d : Clause} (h : e.Filed) (hfind : findConflict [] e.start.1 = some (c, d)) :
    c ∈ e.start.2.derivation.toList ∧ d ∈ e.start.2.derivation.toList := by
  have hcopies : e.start.1 ⊆ e.start.2.derivation.toList := by
    rw [(opens_start h).toList]
    exact List.subset_append_left _ _
  obtain ⟨hc, hd, -⟩ := mem_of_findConflict hfind
  exact ⟨hcopies hc, hcopies hd⟩

/-- A conflict puts the empty clause on the record. -/
theorem Filed.recorded_conflict {c d : Clause} (h : e.Filed) (hfind : findConflict [] e.start.1 = some (c, d)) :
    Recorded e.start.2.derivation.toList e.counter (e.start.2.registerConflict c d).2.derivation.toList
        (e.start.2.counter + 1) ∧
      (e.start.2.registerConflict c d).2.HasEmpty (e.start.2.registerConflict c d).1.index := by
  obtain ⟨hc, hd⟩ := h.mem_of_conflict hfind
  obtain ⟨-, -, l, hdl, hcl⟩ := mem_of_findConflict hfind
  exact recorded_registerConflict (recording_start h) hc hd hdl hcl

/-- The derivation of a run is as the run left it. -/
theorem derivationAt_reset {e₁ : Engine} (h : e.Archived) (hs : e.start.2.Steady e₁) :
    e₁.reset.derivationAt e₁.derivation.number = e₁.derivation := by
  obtain ⟨hknowledge, hnumber, -⟩ := frame_start e
  have hreset : e₁.reset.derivation = e₁.derivation := by
    refine derivation_reset fun c hc p hp => ?_
    rw [hs.knowledge, hknowledge] at hc
    have := h.knowledge c hc p hp
    rw [hs.number, hnumber]
    omega
  rw [derivationAt, hreset, if_pos rfl]

theorem pursue_of_conflict {goal c d : Clause} {limit : Option Int}
    (h : findConflict [] e.start.1 = some (c, d)) :
    e.pursue goal limit = (⟨goal, (e.start.2.registerConflict c d).2.derivation.number, [],
      .proven (e.start.2.registerConflict c d).1.index⟩, (e.start.2.registerConflict c d).2.reset) := by
  unfold pursue
  rw [← Prod.eta e.start]
  dsimp only
  rw [h]

theorem exists_verdict_proceed (e : Engine) (limit : Option Int) :
    ∃ verdict, (e.proceed limit none []).1 = .decided verdict := by
  generalize hsearch : e.proceed limit none [] = result
  obtain ⟨stop, e₁, laps⟩ := result
  rcases ends_of_search .nil hsearch with hends | rfl
  · exact hends.exists_verdict
  · exact ⟨_, rfl⟩

theorem pursue_of_search {goal : Clause} {limit : Option Int} {verdict : Verdict}
    (h : findConflict [] e.start.1 = none) (hverdict : (e.start.2.proceed limit none []).1 = .decided verdict) :
    e.pursue goal limit = (⟨goal, (e.start.2.proceed limit none []).2.1.derivation.number,
      (e.start.2.proceed limit none []).2.2, verdict⟩, (e.start.2.proceed limit none []).2.1.reset) := by
  unfold pursue
  rw [← Prod.eta e.start]
  dsimp only
  rw [h]
  dsimp only
  rw [hverdict]

/-- A run searches from where it starts, leaves the knowledge base and the earlier derivations alone, and resets. -/
theorem exists_pursue (e : Engine) (goal : Clause) (limit : Option Int) : ∃ (e₂ : Engine) (laps : List Lap)
    (verdict : Verdict), e.start.2.Steady e₂ ∧
      e.pursue goal limit = (⟨goal, e₂.derivation.number, laps, verdict⟩, e₂.reset) := by
  cases hconflict : findConflict [] e.start.1 with
  | some pair => exact ⟨_, _, _, steady_registerConflict _ pair.1 pair.2, pursue_of_conflict hconflict⟩
  | none =>
    obtain ⟨verdict, hverdict⟩ := exists_verdict_proceed e.start.2 limit
    exact ⟨_, _, verdict, steady_search limit none _ _ _, pursue_of_search hconflict hverdict⟩

/-- **A run that proves its goal** has the empty clause on its record. -/
theorem recorded_run {goal : Clause} {limit : Option Int} {r : Run} {i : Int} (h : e.Filed)
    (hrun : e.pursue goal limit = (r, e')) (hproven : r.verdict = .proven i) :
    ∃ n, Recorded e.start.2.derivation.toList e.counter (e'.outcome r).derivation.toList n ∧
      ∃ c ∈ (e'.outcome r).derivation.toList, c.index = i ∧ c.literals = .empty := by
  have hstart := recording_start h
  have hend : ∀ {e₁ : Engine}, e.start.2.Steady e₁ →
      e₁.reset.derivationAt e₁.derivation.number = e₁.derivation := derivationAt_reset h.toArchived
  cases hfind : findConflict [] e.start.1 with
  | some pair =>
    obtain ⟨c, d⟩ := pair
    rw [pursue_of_conflict hfind] at hrun
    cases hrun
    cases hproven
    refine ⟨e.start.2.counter + 1, ?_⟩
    simp only [outcome]
    rw [hend (steady_registerConflict _ c d)]
    exact h.recorded_conflict hfind
  | none =>
    obtain ⟨verdict, hverdict⟩ := exists_verdict_proceed e.start.2 limit
    have hsteady : e.start.2.Steady (e.start.2.proceed limit none []).2.1 := steady_search _ _ _ _ _
    rw [pursue_of_search hfind hverdict] at hrun
    cases hrun
    cases hproven
    simp only [outcome]
    rw [hend hsteady]
    generalize hsearch : e.start.2.proceed limit none [] = result at hverdict
    obtain ⟨stop, e₁, laps⟩ := result
    cases hverdict
    refine ⟨e₁.counter, ?_⟩
    cases (ends_of_search .nil hsearch).resolve_right (by simp) with
    | refuted hr hround hending =>
      obtain ⟨hrecording, hempty⟩ := (hstart.rounds hr).round hround
      exact ⟨hrecording.record, hempty _ hending⟩

end Engine

end Clausal
