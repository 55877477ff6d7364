import Clausal.Proofs.Display
import Clausal.Proofs.Lockstep

/-!
# Runs that differ only in their numbers

Two clauses are alike if they have the same literals, parents and position; their numbers and their earlier places may
differ.  Rounds look at nothing else, so alike engines go the same way, step by step:

* `Clause.Alike`, `ClauseTable.Alike`, `Engine.Alike`;
* `Engine.Alike.round`, `Engine.Alike.search`: alike engines make the same rounds and stay alike;
* `Engine.alike_pursue`: runs for the same goal with the same knowledge base, whatever the numbers, have the same
  verdict and the same history, and their derivations are alike.
-/

namespace Clausal

/-! ## Related lists -/

section Rel

variable {α β : Type} {R : α → β → Prop} {as : List α} {bs : List β} {p : α → Bool} {q : β → Bool}

theorem any_rel (h : List.Forall₂ R as bs) (hpq : ∀ a b, R a b → p a = q b) : as.any p = bs.any q := by
  induction h with
  | nil => rfl
  | cons hab _ ih => rw [List.any_cons, List.any_cons, hpq _ _ hab, ih]

theorem find?_rel (h : List.Forall₂ R as bs) (hpq : ∀ a b, R a b → p a = q b) :
    (as.find? p = none ∧ bs.find? q = none) ∨
      ∃ a b, as.find? p = some a ∧ bs.find? q = some b ∧ R a b := by
  induction h with
  | nil => exact .inl ⟨rfl, rfl⟩
  | @cons a b as bs hab _ ih =>
    rw [List.find?_cons, List.find?_cons, ← hpq a b hab]
    cases p a with
    | true => exact .inr ⟨a, b, rfl, rfl, hab⟩
    | false => exact ih

theorem getElem?_rel (h : List.Forall₂ R as bs) (i : Nat) : (as[i]? = none ∧ bs[i]? = none) ∨
    ∃ a b, as[i]? = some a ∧ bs[i]? = some b ∧ R a b := by
  induction h generalizing i with
  | nil => exact .inl ⟨rfl, rfl⟩
  | cons hab _ ih =>
    cases i with
    | zero => exact .inr ⟨_, _, rfl, rfl, hab⟩
    | succ i => exact ih i

end Rel

/-! ## Clauses and tables -/

/-- The clauses differ at most in their numbers, and in where else they were registered. -/
structure Clause.Alike (c d : Clause) : Prop where
  literals : c.literals = d.literals
  parents : c.parents = d.parents
  position : c.index? = d.index?

theorem Clause.Alike.index {c d : Clause} (h : c.Alike d) : c.index = d.index := by
  rw [Clause.index, Clause.index, h.position]

section Lists

variable {cs ds : List Clause} {c d : Clause}

theorem literals_of_alike (h : List.Forall₂ Clause.Alike cs ds) :
    cs.map Clause.literals = ds.map Clause.literals := by
  induction h with
  | nil => rfl
  | cons hcd _ ih => rw [List.map_cons, List.map_cons, hcd.literals, ih]

theorem alike_append {cs' ds' : List Clause} (h : List.Forall₂ Clause.Alike cs ds)
    (h' : List.Forall₂ Clause.Alike cs' ds') : List.Forall₂ Clause.Alike (cs ++ cs') (ds ++ ds') :=
  List.rel_append h h'

theorem alike_filter {p q : Clause → Bool} (h : List.Forall₂ Clause.Alike cs ds)
    (hpq : ∀ c d, c.Alike d → p c = q d) : List.Forall₂ Clause.Alike (cs.filter p) (ds.filter q) :=
  List.rel_filter (fun c d hcd => Bool.eq_iff_iff.1 (hpq c d hcd)) h

theorem names_of_alike (h : List.Forall₂ Clause.Alike cs ds) : cs.map Clause.name = ds.map Clause.name := by
  have hname : ∀ cs : List Clause, cs.map Clause.name = (cs.map Clause.literals).map LiteralSet.name := by
    intro cs
    rw [List.map_map]
    rfl
  rw [hname, hname, literals_of_alike h]

theorem Clause.Alike.subsumes {c' d' : Clause} (h : c.Alike d) (h' : c'.Alike d') :
    c.subsumes c' = d.subsumes d' := by
  rw [Clause.subsumes, Clause.subsumes, h.literals, h'.literals]

theorem redundantAgainst_alike (h : List.Forall₂ Clause.Alike cs ds) (hc : c.Alike d) :
    c.redundantAgainst (cs.map some) = d.redundantAgainst (ds.map some) := by
  induction h with
  | nil => rfl
  | cons hcd _ ih =>
    rw [List.map_cons, List.map_cons, Clause.redundantAgainst, Clause.redundantAgainst, ih,
      hcd.subsumes hc, hc.subsumes hcd]

end Lists

namespace ClauseTable

variable {t u : ClauseTable} {c d : Clause} {cs ds : List Clause}

/-- The tables have alike clauses, in the same order. -/
def Alike (t u : ClauseTable) : Prop := List.Forall₂ Clause.Alike t.toList u.toList

namespace Alike

theorem contains (h : t.Alike u) (s : LiteralSet) : t.contains s = u.contains s :=
  any_rel h fun c d hcd => by rw [hcd.literals]

theorem size (h : t.Alike u) : t.size = u.size := h.length_eq

theorem isEmpty (h : t.Alike u) : t.isEmpty = u.isEmpty := by
  rw [ClauseTable.isEmpty, ClauseTable.isEmpty, Bool.eq_iff_iff, List.isEmpty_iff_length_eq_zero,
    List.isEmpty_iff_length_eq_zero, h.length_eq]

theorem put (h : t.Alike u) (hc : c.Alike d) : (t.put c).Alike (u.put d) := by
  have hcontains : t.contains c.literals = u.contains d.literals := by rw [h.contains, hc.literals]
  unfold Alike
  cases ht : t.contains c.literals with
  | false =>
    rw [toList_put_of_new ht, toList_put_of_new (hcontains ▸ ht)]
    exact alike_append h (.cons hc .nil)
  | true =>
    rw [toList_put_of_contains ht, toList_put_of_contains (hcontains ▸ ht)]
    refine List.rel_map (fun a b hab => ?_) h
    rw [hab.literals, hc.literals]
    split
    · exact hc
    · exact hab

theorem putAll (h : t.Alike u) (hcs : List.Forall₂ Clause.Alike cs ds) : (t.putAll cs).Alike (u.putAll ds) :=
  List.rel_foldl (fun _ _ ht _ _ hc => ht.put hc) h hcs

theorem foldl_erase (h : t.Alike u) (hcs : List.Forall₂ Clause.Alike cs ds) :
    (cs.foldl (fun t c => t.erase c.literals) t).Alike (ds.foldl (fun t c => t.erase c.literals) u) := by
  refine List.rel_foldl (fun t u ht c d hc => ?_) h hcs
  exact alike_filter ht fun a b hab => by rw [hab.literals, hc.literals]

/-- The same clauses are absorbed, and push the same ones out. -/
theorem absorb (h : t.Alike u) (hc : c.Alike d) : (t.absorb c = none ∧ u.absorb d = none) ∨
    ∃ out out' t' u', t.absorb c = some (out, t') ∧ u.absorb d = some (out', u') ∧ t'.Alike u' := by
  unfold ClauseTable.absorb
  rw [redundantAgainst_alike h hc]
  split
  · exact .inl ⟨rfl, rfl⟩
  · refine .inr ⟨_, _, _, _, rfl, rfl, put ?_ hc⟩
    exact alike_filter h fun a b hab => by rw [hc.subsumes hab]

end Alike

theorem alike_ofList (h : List.Forall₂ Clause.Alike cs ds) : (ofList cs).Alike (ofList ds) :=
  Alike.putAll List.Forall₂.nil h

end ClauseTable

/-! ## Engines -/

theorem Derivation.size_register (d : Derivation) (c : Clause) : (d.register c).size = d.size + 1 := by
  have hfold : ∀ (places : List Place) (clauses : Array Clause), (places.foldl (fun clauses place =>
      if place.derivation = d.number then clauses.setIfInBounds place.position (d.placed c) else clauses)
      clauses).size = clauses.size := by
    intro places
    induction places with
    | nil => simp
    | cons place places ih =>
      intro clauses
      rw [List.foldl_cons, ih]
      split
      · exact Array.size_setIfInBounds
      · rfl
  simp [register, refresh, size, hfold]

namespace Engine

variable {e e' : Engine} {c d : Clause} {cs ds : List Clause}

/-- The engines are in the middle of alike runs. -/
structure Alike (e e' : Engine) : Prop where
  support : e.support.Alike e'.support
  working : e.working.Alike e'.working
  derivation : List.Forall₂ Clause.Alike e.derivation.toList e'.derivation.toList

theorem Alike.size (h : e.Alike e') : e.derivation.size = e'.derivation.size := by
  rw [Derivation.size_eq, Derivation.size_eq, h.derivation.length_eq]

theorem alike_register (hsize : e.derivation.size = e'.derivation.size) (hc : c.Alike d) :
    (e.register c).1.Alike (e'.register d).1 :=
  ⟨hc.literals, hc.parents, congrArg some hsize⟩

theorem alike_registerAll (hsize : e.derivation.size = e'.derivation.size)
    (h : List.Forall₂ Clause.Alike cs ds) :
    List.Forall₂ Clause.Alike (e.registerAll cs).1 (e'.registerAll ds).1 := by
  induction h generalizing e e' with
  | nil => exact .nil
  | @cons c d cs ds hcd _ ih =>
    have hsize' : (e.register c).2.derivation.size = (e'.register d).2.derivation.size := by
      have hsucc := Derivation.size_register
      exact (hsucc e.derivation c).trans (hsize ▸ (hsucc e'.derivation d).symm)
    rw [registerAll_cons, registerAll_cons]
    exact .cons (alike_register hsize hcd) (ih hsize')

theorem alike_number (parents : List Int) (next next' : Int) (ls : List LiteralSet) :
    List.Forall₂ Clause.Alike (Clause.number parents next ls) (Clause.number parents next' ls) := by
  induction ls generalizing next next' with
  | nil => exact .nil
  | cons r ls ih =>
    rw [Clause.number, Clause.number]
    split
    · exact ih _ _
    · exact .cons ⟨rfl, rfl, rfl⟩ (ih _ _)

/-- **Resolving alike clauses** gives alike resolvents. -/
theorem Alike.link (h : e.Alike e') {s s' : Clause} (hc : c.Alike d) (hs : s.Alike s') :
    List.Forall₂ Clause.Alike (e.link c s).1 (e'.link d s').1 ∧ (e.link c s).2.Alike (e'.link d s').2 := by
  have hresolvents : List.Forall₂ Clause.Alike (e.link c s).1 (e'.link d s').1 := by
    unfold Engine.link
    rw [hc.index, hs.index, hc.literals, hs.literals]
    exact alike_registerAll h.size (alike_number _ _ _ _)
  obtain ⟨hsupport, hworking⟩ := link_frame e c s
  obtain ⟨hsupport', hworking'⟩ := link_frame e' d s'
  refine ⟨hresolvents, ?_, ?_, ?_⟩
  · rw [hsupport, hsupport']
    exact h.support
  · rw [hworking, hworking']
    exact h.working
  · rw [toList_link, toList_link]
    exact alike_append h.derivation hresolvents

end Engine

/-! ## Rounds -/

/-- Two computations that may stop early go on together or stop together. -/
inductive Parallel {ε δ σ τ : Type} (E : ε → δ → Prop) (S : σ → τ → Prop) : Except ε σ → Except δ τ → Prop
  | ok {s : σ} {t : τ} (h : S s t) : Parallel E S (.ok s) (.ok t)
  | error {x : ε} {y : δ} (h : E x y) : Parallel E S (.error x) (.error y)

theorem parallel_foldlM {ε δ σ τ α β : Type} {E : ε → δ → Prop} {S : σ → τ → Prop} {R : α → β → Prop}
    {f : σ → α → Except ε σ} {g : τ → β → Except δ τ} {as : List α} {bs : List β} {s : σ} {t : τ}
    (hstep : ∀ a b s t, R a b → S s t → Parallel E S (f s a) (g t b)) (hlists : List.Forall₂ R as bs)
    (h : S s t) : Parallel E S (as.foldlM f s) (bs.foldlM g t) := by
  induction hlists generalizing s t with
  | nil => exact .ok h
  | @cons a b as bs hab _ ih =>
    rw [List.foldlM_cons, List.foldlM_cons]
    have hfirst := hstep a b s t hab h
    generalize f s a = x at hfirst
    generalize g t b = y at hfirst
    cases hfirst with
    | ok h => exact ih h
    | error h => exact .error h

namespace Sweep

variable {w v : Sweep} {c d s s' : Clause}

/-- The sweeps of alike rounds, up to what is told of them. -/
structure Alike (w v : Sweep) : Prop where
  engine : w.engine.Alike v.engine
  candidates : w.candidates.Alike v.candidates
  doomed : w.doomed.Alike v.doomed

/-- The sweeps of alike rounds find the empty clause at the same position. -/
structure Found (x y : Refutation) : Prop where
  engine : x.engine.Alike y.engine
  position : x.empty = y.empty

theorem Alike.consider (h : w.Alike v) {r r' : Clause} (hr : r.Alike r') :
    (w.consider r).Alike (v.consider r') := by
  unfold Sweep.consider
  rw [any_rel h.engine.working fun c d hcd => hcd.subsumes hr]
  split
  · exact ⟨h.engine, h.candidates, h.doomed⟩
  rcases h.candidates.absorb hr with ⟨ht, hu⟩ | ⟨out, out', t, u, ht, hu, htu⟩
  · rw [ht, hu]
    exact h
  · rw [ht, hu]
    refine ⟨h.engine, htu, h.doomed.putAll (alike_filter h.engine.working fun c d hcd => ?_)⟩
    rw [hr.subsumes hcd, hcd.literals, h.doomed.contains]

theorem Alike.sift (h : w.Alike v) {rs rs' : List Clause} (hrs : List.Forall₂ Clause.Alike rs rs') :
    Parallel Found Alike (w.sift c s rs) (v.sift d s' rs') := by
  induction hrs generalizing w v with
  | nil => exact .ok h
  | @cons r r' rs rs' hr _ ih =>
    rw [Sweep.sift, Sweep.sift, Clause.isEmpty, Clause.isEmpty, hr.literals]
    split
    · exact .error ⟨h.engine, hr.index⟩
    · exact ih (h.consider hr)

theorem Alike.meet (hs : s.Alike s') (hc : c.Alike d) (h : w.Alike v) :
    Parallel Found Alike (meet s w c) (meet s' v d) := by
  obtain ⟨hresolvents, hengine⟩ := h.engine.link hc hs
  have hlinked : Alike { w with engine := (w.engine.link c s).2 } { v with engine := (v.engine.link d s').2 } :=
    ⟨hengine, h.candidates, h.doomed⟩
  exact hlinked.sift hresolvents

theorem Alike.enlist (h : w.Alike v) (hs : s.Alike s') :
    (w.enlist s).1.Alike (v.enlist s').1 ∧ (w.enlist s).2.Alike (v.enlist s').2 := by
  unfold Sweep.enlist
  rw [hs.position]
  cases hi : s'.index? with
  | some i => exact ⟨hs, h⟩
  | none =>
    have hplaces := Clause.index?_eq_none_iff.1 (hs.position.trans hi)
    have hplaces' := Clause.index?_eq_none_iff.1 hi
    have hregister := Engine.alike_register h.engine.size hs
    refine ⟨hregister, ⟨h.engine.support.put hregister, h.engine.working, ?_⟩, h.candidates, h.doomed⟩
    show List.Forall₂ _ (w.engine.derivation.register s).toList (v.engine.derivation.register s').toList
    rw [Derivation.toList_register hplaces, Derivation.toList_register hplaces']
    exact alike_append h.engine.derivation (.cons hregister .nil)

theorem alike_all {e e' : Engine} (h : e.Alike e') : Parallel Found Alike (Sweep.all e) (Sweep.all e') := by
  refine parallel_foldlM (fun s s' w v hs hw => ?_) h.support ⟨h, .nil, .nil⟩
  unfold pass
  have hempty : e.working.toList.isEmpty = e'.working.toList.isEmpty := h.working.isEmpty
  rw [hempty]
  split
  · exact .ok hw
  · obtain ⟨hs', hw'⟩ := hw.enlist hs
    exact parallel_foldlM (fun c d w v hc hw => Alike.meet hs' hc hw) h.working hw'

end Sweep

namespace Engine

variable {e e' : Engine}

theorem Alike.entry (h : e.Alike e') (n : Nat) {cs ds cs' ds' : List Clause}
    (hcs : List.Forall₂ Clause.Alike cs cs') (hds : List.Forall₂ Clause.Alike ds ds') :
    e.entry n cs ds = e'.entry n cs' ds' := by
  rw [Engine.entry, Engine.entry, h.support.size, h.working.size, names_of_alike hcs, names_of_alike hds]

/-- **Alike engines make the same round.** -/
theorem Alike.round (h : e.Alike e') (n : Nat) : (e.round n).1.entry = (e'.round n).1.entry ∧
    (e.round n).1.ending = (e'.round n).1.ending ∧ (e.round n).2.Alike (e'.round n).2 := by
  have hall := Sweep.alike_all h
  unfold Engine.round
  generalize Sweep.all e = x at hall
  generalize Sweep.all e' = y at hall
  cases hall with
  | error hfound =>
    exact ⟨hfound.engine.entry n (.cons ⟨rfl, rfl, rfl⟩ .nil) .nil,
      congrArg RoundEnd.refuted hfound.position, hfound.engine⟩
  | @ok w v hw =>
    have hworking := hw.engine.working.foldl_erase hw.doomed
    dsimp only
    generalize w.doomed.toList.foldl (fun t c => t.erase c.literals) w.engine.working = working
      at hworking
    generalize v.doomed.toList.foldl (fun t c => t.erase c.literals) v.engine.working = working'
      at hworking
    have hnew : (w.candidates.filter fun r => !working.contains r.literals).Alike
        (v.candidates.filter fun r => !working'.contains r.literals) :=
      alike_filter hw.candidates fun c d hcd => by rw [hcd.literals, hworking.contains]
    generalize w.candidates.filter (fun r => !working.contains r.literals) = new at hnew
    generalize v.candidates.filter (fun r => !working'.contains r.literals) = new' at hnew
    have hengine : ({ w.engine with working } : Engine).Alike { v.engine with working := working' } :=
      ⟨hw.engine.support, hworking, hw.engine.derivation⟩
    rw [hnew.isEmpty]
    split
    · exact ⟨hengine.entry n hnew hw.doomed, rfl, hengine⟩
    · exact ⟨hengine.entry n hnew hw.doomed, rfl, hnew, hworking.putAll hnew, hw.engine.derivation⟩

/-! ## Runs -/

theorem lockstep_alike : Lockstep Alike Eq Eq := by
  intro e e' n h
  obtain ⟨hentry, hending, hengine⟩ := h.round n
  exact ⟨hentry, .of_eq hending, hengine⟩

theorem Alike.search (h : e.Alike e') (limit pause : Option Int) (fuel : Nat) {past past' : List Lap}
    (hpast : entries past = entries past') :
    (Engine.search limit pause fuel e past).1 = (Engine.search limit pause fuel e' past').1 ∧
    (Engine.search limit pause fuel e past).2.1.Alike (Engine.search limit pause fuel e' past').2.1 ∧
    entries (Engine.search limit pause fuel e past).2.2 = entries (Engine.search limit pause fuel e' past').2.2 := by
  rw [← List.forall₂_eq_eq_eq] at hpast ⊢
  obtain ⟨hstop, hengine, hentries⟩ := lockstep_alike.search h limit pause fuel hpast
  exact ⟨hstop.eq, hengine, hentries⟩

theorem mem_atoms {cs : List Clause} {a : String} :
    a ∈ atoms cs ↔ ∃ s ∈ setsOf cs, ∃ l ∈ s.toList, l.atom = a := by
  simp [atoms, mem_setsOf]

/-- The bound on the rounds depends on the literal sets only. -/
theorem roundBound_congr (hworking : e.working.sets = e'.working.sets) (hsupport : e.support.sets = e'.support.sets) :
    e.roundBound = e'.roundBound := by
  have hsplit : ∀ e : Engine, setsOf (e.working.toList ++ e.support.toList) = e.working.sets ∪ e.support.sets := by
    intro e
    ext s
    simp [mem_setsOf, ClauseTable.mem_sets, or_and_right, exists_or]
  have hperm : (atoms (e.working.toList ++ e.support.toList)).Perm
      (atoms (e'.working.toList ++ e'.support.toList)) := by
    have hnodup : ∀ cs : List Clause, (atoms cs).Nodup := fun _ => nodup_eraseDups _
    refine (List.perm_ext_iff_of_nodup (hnodup _) (hnodup _)).2 fun a => ?_
    rw [mem_atoms, mem_atoms, hsplit, hsplit, hworking, hsupport]
  unfold Engine.roundBound
  rw [hperm.length_eq]

theorem Alike.proceed (h : e.Alike e') (limit pause : Option Int) {past past' : List Lap}
    (hpast : entries past = entries past') :
    (e.proceed limit pause past).1 = (e'.proceed limit pause past').1 ∧
    (e.proceed limit pause past).2.1.Alike (e'.proceed limit pause past').2.1 ∧
    entries (e.proceed limit pause past).2.2 = entries (e'.proceed limit pause past').2.2 := by
  have hbound := roundBound_congr (setsOf_eq_of_map (literals_of_alike h.working))
    (setsOf_eq_of_map (literals_of_alike h.support))
  unfold Engine.proceed
  rw [hbound]
  exact h.search limit pause _ hpast

theorem alike_seed {copies copies' : List Clause} {t u : ClauseTable} {s s' : Clause}
    (hcopies : List.Forall₂ Clause.Alike copies copies') (h : t.Alike u) (hs : s.Alike s') :
    (seed copies t s).Alike (seed copies' u s') := by
  refine (h.foldl_erase (alike_filter hcopies fun c d hcd => ?_)).put hs
  rw [hs.subsumes hcd, hcd.literals, hs.literals]

/-- Clauses that were asserted, and stand where they were registered, are alike if their literals are the same. -/
theorem alike_of_literals {cs ds : List Clause} (n : Nat)
    (hcs : ∀ (i : Nat) (c : Clause), cs[i]? = some c → c.parents = [] ∧ c.index? = some (n + i))
    (hds : ∀ (i : Nat) (c : Clause), ds[i]? = some c → c.parents = [] ∧ c.index? = some (n + i))
    (h : cs.map Clause.literals = ds.map Clause.literals) : List.Forall₂ Clause.Alike cs ds := by
  refine List.forall₂_iff_get.2 ⟨by simpa using congrArg List.length h, fun i hi hi' => ?_⟩
  obtain ⟨hparents, hindex⟩ := hcs i _ (List.getElem?_eq_getElem hi)
  obtain ⟨hparents', hindex'⟩ := hds i _ (List.getElem?_eq_getElem hi')
  refine ⟨?_, hparents.trans hparents'.symm, hindex.trans hindex'.symm⟩
  have hget := congrArg (·[i]?) h
  simpa [hi, hi'] using hget

/-- **Runs begin alike** if the knowledge base and the support are the same, up to numbers. -/
theorem alike_start (h : e.Filed) (h' : e'.Filed) (hknowledge : e.knowledge.keys = e'.knowledge.keys)
    (hsupport : e.support.keys = e'.support.keys) :
    List.Forall₂ Clause.Alike e.start.1 e'.start.1 ∧ e.start.2.Alike e'.start.2 := by
  have ho := opens_start h
  have ho' := opens_start h'
  have hderivation : List.Forall₂ Clause.Alike e.start.2.derivation.toList e'.start.2.derivation.toList := by
    refine alike_of_literals 0 (fun i c hc => ?_) (fun i c hc => ?_) ?_
    · simpa using ⟨ho.parents c (List.mem_of_getElem? hc), ho.index i c hc⟩
    · simpa using ⟨ho'.parents c (List.mem_of_getElem? hc), ho'.index i c hc⟩
    · have hkeys := ho.supportKeys.trans (hsupport.trans ho'.supportKeys.symm)
      unfold ClauseTable.keys at hkeys
      rw [ho.toList, ho'.toList, List.map_append, List.map_append, ho.keys, ho'.keys, hknowledge, hkeys]
  have hlength : e.start.1.length = e'.start.1.length := by
    have hkeys := congrArg List.length (ho.keys.trans (hknowledge.trans ho'.keys.symm))
    simpa using hkeys
  have hparts := hderivation
  rw [ho.toList, ho'.toList] at hparts
  have hcopies : List.Forall₂ Clause.Alike e.start.1 e'.start.1 := by
    have htake := List.forall₂_take e.start.1.length hparts
    rw [List.take_left, hlength, List.take_left] at htake
    exact htake
  have hunits : e.start.2.support.Alike e'.start.2.support := by
    have hdrop := List.forall₂_drop e.start.1.length hparts
    rw [List.drop_left, hlength, List.drop_left] at hdrop
    exact hdrop
  refine ⟨hcopies, hunits, ?_, hderivation⟩
  rw [ho.working, ho'.working]
  exact List.rel_foldl (R := Clause.Alike) (P := ClauseTable.Alike)
    (fun _ _ ht _ _ hs => alike_seed hcopies ht hs) (ClauseTable.alike_ofList hcopies) hunits

theorem alike_findConflict {us us' cs cs' : List Clause} (hus : List.Forall₂ Clause.Alike us us')
    (hcs : List.Forall₂ Clause.Alike cs cs') :
    (findConflict us cs = none ∧ findConflict us' cs' = none) ∨
      ∃ c d c' d', findConflict us cs = some (c, d) ∧ findConflict us' cs' = some (c', d') ∧
        c.Alike c' ∧ d.Alike d' := by
  induction hcs generalizing us us' with
  | nil => exact .inl ⟨rfl, rfl⟩
  | @cons b b' cs cs' hb _ ih =>
    rw [findConflict, findConflict, hb.literals]
    split
    · rename_i l _
      have hfind := find?_rel hus (p := fun d => d.literals == .singleton l.complement)
        (q := fun d => d.literals == .singleton l.complement) fun c d hcd => by rw [hcd.literals]
      rcases hfind with ⟨hn, hn'⟩ | ⟨u, u', hu, hu', huu⟩
      · rw [hn, hn']
        exact ih (.cons hb hus)
      · rw [hu, hu']
        exact .inr ⟨u, b, u', b', rfl, rfl, huu, hb⟩
    · exact ih hus

theorem alike_registerConflict {c d c' d' : Clause} (h : e.Alike e') (hc : c.Alike c') (hd : d.Alike d') :
    (e.registerConflict c d).1.Alike (e'.registerConflict c' d').1 ∧
    List.Forall₂ Clause.Alike (e.registerConflict c d).2.derivation.toList
      (e'.registerConflict c' d').2.derivation.toList := by
  have hempty : (e.registerConflict c d).1.Alike (e'.registerConflict c' d').1 := by
    refine ⟨rfl, ?_, congrArg some h.size⟩
    show [c.index, d.index] = [c'.index, d'.index]
    rw [hc.index, hd.index]
  refine ⟨hempty, ?_⟩
  rw [toList_registerConflict, toList_registerConflict]
  exact alike_append h.derivation (.cons hempty .nil)

/-- **Runs for the same goal with the same knowledge base go the same way**, whatever the numbers of its clauses
and of the support. -/
theorem alike_pursue {goal : Clause} {limit : Option Int} {r r' : Run} {e₁ e₁' : Engine} (h : e.Filed)
    (h' : e'.Filed) (hknowledge : e.knowledge.keys = e'.knowledge.keys)
    (hsupport : e.support.keys = e'.support.keys) (hrun : e.pursue goal limit = (r, e₁))
    (hrun' : e'.pursue goal limit = (r', e₁')) :
    r.verdict = r'.verdict ∧ r.history = r'.history ∧
      List.Forall₂ Clause.Alike (e₁.outcome r).derivation.toList (e₁'.outcome r').derivation.toList := by
  obtain ⟨hcopies, hstart⟩ := alike_start h h' hknowledge hsupport
  have hend : ∀ {e₂ : Engine}, e.start.2.Steady e₂ →
      e₂.reset.derivationAt e₂.derivation.number = e₂.derivation := derivationAt_reset h.toArchived
  have hend' : ∀ {e₂ : Engine}, e'.start.2.Steady e₂ →
      e₂.reset.derivationAt e₂.derivation.number = e₂.derivation := derivationAt_reset h'.toArchived
  rcases alike_findConflict .nil hcopies with ⟨hn, hn'⟩ | ⟨c, d, c', d', hs, hs', hc, hd⟩
  · obtain ⟨verdict, hverdict⟩ := exists_verdict_proceed e.start.2 limit
    have hpast : entries [] = entries [] := rfl
    obtain ⟨hstop, hengine, hentries⟩ := hstart.proceed limit none hpast
    rw [pursue_of_search hn hverdict] at hrun
    rw [pursue_of_search hn' (hstop ▸ hverdict)] at hrun'
    cases hrun
    cases hrun'
    refine ⟨rfl, hentries, ?_⟩
    simp only [outcome]
    have hsteady : e.start.2.Steady (e.start.2.proceed limit none []).2.1 := steady_search _ _ _ _ _
    have hsteady' : e'.start.2.Steady (e'.start.2.proceed limit none []).2.1 := steady_search _ _ _ _ _
    rw [hend hsteady, hend' hsteady']
    exact hengine.derivation
  · rw [pursue_of_conflict hs] at hrun
    rw [pursue_of_conflict hs'] at hrun'
    cases hrun
    cases hrun'
    obtain ⟨hempty, hderivation⟩ := alike_registerConflict hstart hc hd
    refine ⟨congrArg Verdict.proven hempty.index, rfl, ?_⟩
    simp only [outcome]
    rw [hend (steady_registerConflict _ c d), hend' (steady_registerConflict _ c' d')]
    exact hderivation

end Engine

end Clausal
