import Clausal.Proofs.Display
import Clausal.Proofs.Growth
import Clausal.Proofs.Refinement

/-!
# Rounds as layers of the derivation

A run resolves only with the support, and the support of a round is what the round before it produced.  So the
derivation of a run has layers: first the asserted clauses, then what was derived in the first round, and so on.  A
clause of the `k`-th round has the depth `k` and goes back to the negated goal.

* `depthsOf`: how deep the clauses of a list are derived;
* `Engine.DerivedAfter`: what is known of a clause that was derived after some laps;
* `Engine.Layered.round`: a round adds one layer;
* `Engine.arranged_in_rounds`: the derivation of every run is so arranged.
-/

namespace Clausal

/-! ## Depth -/

/-- The depth of a clause with these parents, if the clauses before it have the given depths: 0 without parents,
otherwise one more than that of the deepest. -/
def depthBelow (depths : List Nat) (parents : List Int) : Nat :=
  parents.foldr (fun i m => max (depths.getD i.toNat 0 + 1) m) 0

/-- How deep the clauses of a list are derived, in which parents are named by position. -/
def depthsOf (cs : List Clause) : List Nat :=
  cs.foldl (fun depths c => depths ++ [depthBelow depths c.parents]) []

section Depth

variable {cs : List Clause} {c : Clause} {i a b m n : Nat}

theorem depthsOf_snoc (cs : List Clause) (c : Clause) :
    depthsOf (cs ++ [c]) = depthsOf cs ++ [depthBelow (depthsOf cs) c.parents] := by
  simp [depthsOf]

theorem length_depthsOf (cs : List Clause) : (depthsOf cs).length = cs.length := by
  induction cs using List.reverseRecOn with
  | nil => rfl
  | append_singleton cs c ih => simp [depthsOf_snoc, ih]

/-- What is derived later does not change the depth of a clause. -/
theorem depthsOf_append (ds : List Clause) (h : (depthsOf cs)[i]? = some m) :
    (depthsOf (cs ++ ds))[i]? = some m := by
  induction ds using List.reverseRecOn with
  | nil => rwa [List.append_nil]
  | append_singleton ds d ih =>
    rw [← List.append_assoc, depthsOf_snoc]
    exact getElem?_append_of_some _ ih

theorem getElem?_depthsOf (hc : cs[i]? = some c) :
    (depthsOf cs)[i]? = some (depthBelow (depthsOf (cs.take i)) c.parents) := by
  obtain ⟨hi, rfl⟩ := List.getElem?_eq_some_iff.1 hc
  have hsplit : cs = cs.take i ++ [cs[i]] ++ cs.drop (i + 1) := by simp
  have hlast : (depthsOf (cs.take i ++ [cs[i]]))[i]? =
      some (depthBelow (depthsOf (cs.take i)) cs[i].parents) := by
    have hlength : (depthsOf (cs.take i)).length = i := by
      rw [length_depthsOf, List.length_take]
      omega
    rw [depthsOf_snoc, List.getElem?_append_right hlength.le, hlength, Nat.sub_self]
    rfl
  have happend := depthsOf_append (cs.drop (i + 1)) hlast
  rwa [← hsplit] at happend

theorem depthsOf_asserted (hc : cs[i]? = some c) (hparents : c.parents = []) : (depthsOf cs)[i]? = some 0 := by
  rw [getElem?_depthsOf hc, hparents]
  rfl

theorem depthsOf_derived (hc : cs[i]? = some c) (hparents : c.parents = [(a : Int), (b : Int)])
    (ha : (depthsOf (cs.take i))[a]? = some m) (hb : (depthsOf (cs.take i))[b]? = some n) :
    (depthsOf cs)[i]? = some (max m n + 1) := by
  rw [getElem?_depthsOf hc, hparents]
  simp [depthBelow, List.getD_eq_getElem?_getD, ha, hb]

end Depth

/-- What is reached from a clause is so also when the derivation has grown, if parents are never named from the
end. -/
theorem Derivation.Leads.append {d d' : Derivation} {new : List Clause} {i : Nat} {j : Int}
    (hnames : ∀ c ∈ d.toList, ∀ x ∈ c.parents, 0 ≤ x) (hd : d'.toList = d.toList ++ new) (h : d.Leads i j) :
    d'.Leads i j := by
  have hboth : 0 ≤ j ∧ d'.Leads i j := by
    induction h with
    | refl => exact ⟨by omega, .refl⟩
    | tail _ hnext ih =>
      obtain ⟨hx, hleads⟩ := ih
      obtain ⟨c, hc, hparent⟩ := hnext
      obtain ⟨k, rfl⟩ := Int.eq_ofNat_of_zero_le hx
      have hk : d.toList[k]? = some c := by rwa [← Derivation.get?_natCast]
      refine ⟨hnames c (List.mem_of_getElem? hk) _ hparent, hleads.tail ⟨c, ?_, hparent⟩⟩
      rw [Derivation.get?_natCast, hd]
      exact getElem?_append_of_some _ hk
  exact hboth.2

theorem Recorded.parents_nonneg {base d : List Clause} {first n : Int} (h : Recorded base first d n)
    (hbase : ∀ c ∈ base, c.parents = []) : ∀ c ∈ d, ∀ x ∈ c.parents, 0 ≤ x := by
  intro c hc x hx
  obtain ⟨i, hi⟩ := List.mem_iff_getElem?.1 hc
  rcases h.asserted_or_derived hi with hi | ⟨-, -, -, a, b, p, q, -, -, hab, -⟩
  · rw [hbase c (List.mem_of_getElem? hi)] at hx
    cases hx
  · rw [hab] at hx
    rcases List.mem_cons.1 hx with rfl | hx
    · omega
    · have := List.mem_singleton.1 hx
      omega

theorem Recorded.exists_append {base d : List Clause} {first n : Int} (h : Recorded base first d n) :
    ∃ derived, d = base ++ derived := by
  induction h with
  | opening => exact ⟨[], by simp⟩
  | skip _ _ ih => exact ih
  | @snoc _ _ c _ _ _ _ ih =>
    obtain ⟨derived, hd⟩ := ih
    exact ⟨derived ++ [c], by simp [hd]⟩

namespace Engine

/-! ## Layers -/

variable {e₀ x x' : Engine} {units base new : List Clause} {laps past : List Lap} {d d' : Derivation} {i n : Nat}
  {c : Clause} {first : Int} {report : RoundReport}

/-- The clause came into the working set in the last of the laps `past`. -/
def Entered (e₀ : Engine) (past : List Lap) (c : Clause) : Prop :=
  c ∈ (e₀.seen past).working ∧ c ∉ (e₀.seen past.dropLast).working

/-- One of the units is among the ancestors of the clause at a position. -/
def DescendsFrom (units : List Clause) (d : Derivation) (i : Nat) : Prop :=
  ∃ (u : Nat) (s : Clause), s ∈ units ∧ d.toList[u]? = some s ∧ d.Leads i u

/-- The clause at a position was derived in the round after the laps `past` of a run from `e₀`: it is no tautology, and
its second parent is one of the units if this was the first round, and otherwise a clause that came into the working set
in the round before.  So it goes back to one of the units, and its depth is the number of the round. -/
structure DerivedAfter (e₀ : Engine) (units : List Clause) (past : List Lap) (d : Derivation) (i : Nat)
    (c : Clause) : Prop where
  proper : c.isTautology = false
  second : ∃ (a b : Nat) (q : Clause), c.parents = [(a : Int), (b : Int)] ∧ d.toList[b]? = some q ∧
    (past = [] → q ∈ units) ∧ (past ≠ [] → e₀.Entered past q)
  descends : DescendsFrom units d i
  depth : (depthsOf d.toList)[i]? = some (past.length + 1)

/-- Whatever a lap of a run from `e₀` registered was derived in its round. -/
structure Traced (e₀ : Engine) (units : List Clause) (laps : List Lap) (d : Derivation) : Prop where
  proper : ∀ c ∈ d.toList, c.parents ≠ [] → c.isTautology = false
  bounded : ∀ lap ∈ laps, lap.after.size ≤ d.toList.length
  derived : ∀ past lap rest, laps = past ++ lap :: rest → ∀ (i : Nat) (c : Clause), (e₀.seen past).size ≤ i →
    i < lap.after.size → d.toList[i]? = some c → e₀.DerivedAfter units past d i c

theorem DescendsFrom.append (h : DescendsFrom units d i) (hnames : ∀ c ∈ d.toList, ∀ x ∈ c.parents, 0 ≤ x)
    (hd : d'.toList = d.toList ++ new) : DescendsFrom units d' i := by
  obtain ⟨u, s, hs, hu, hleads⟩ := h
  refine ⟨u, s, hs, ?_, hleads.append hnames hd⟩
  rw [hd]
  exact getElem?_append_of_some _ hu

theorem DerivedAfter.append (h : e₀.DerivedAfter units past d i c)
    (hnames : ∀ c ∈ d.toList, ∀ x ∈ c.parents, 0 ≤ x) (hd : d'.toList = d.toList ++ new) :
    e₀.DerivedAfter units past d' i c := by
  obtain ⟨a, b, q, hparents, hq, hsecond⟩ := h.second
  refine ⟨h.proper, ⟨a, b, q, hparents, ?_, hsecond⟩, h.descends.append hnames hd, ?_⟩
  · rw [hd]
    exact getElem?_append_of_some _ hq
  · rw [hd]
    exact depthsOf_append _ h.depth

/-- Between two rounds: the support is what the last round derived, and nothing in the working set is deeper. -/
structure Layered (e₀ : Engine) (units : List Clause) (laps : List Lap) (x : Engine) : Prop where
  traced : e₀.Traced units laps x.derivation
  support : ∀ q ∈ x.support.toList, (laps = [] → q ∈ units) ∧ (laps ≠ [] → e₀.Entered laps q) ∧
    ∃ i : Nat, x.derivation.toList[i]? = some q ∧ DescendsFrom units x.derivation i ∧
      (depthsOf x.derivation.toList)[i]? = some laps.length
  working : ∀ p ∈ x.working.toList, ∃ i m : Nat, x.derivation.toList[i]? = some p ∧
    (depthsOf x.derivation.toList)[i]? = some m ∧ m ≤ laps.length

/-- **What a round registers** is derived from the layer before it. -/
theorem Layered.derivedAfter (h : e₀.Layered units laps x) (hrecording : x.Recording base first)
    (hbase : ∀ c ∈ base, c.parents = []) (hy : x.Yields new report x') (hc : new[i]? = some c) :
    e₀.DerivedAfter units laps x'.derivation (x.derivation.toList.length + i) c := by
  have hregistered : ∀ s ∈ x.support.toList, s.places ≠ [] := by
    intro s hs hplaces
    obtain ⟨k, hk, -⟩ := hrecording.record.exists_index (hrecording.support hs)
    have hindex := hrecording.record.index hk
    rw [Clause.index?_eq_none_iff.2 hplaces] at hindex
    cases hindex
  have hnames := hrecording.record.parents_nonneg hbase
  obtain ⟨p, hp, q, hq, hparents, -, hproper⟩ := hy.resolvent hregistered (List.mem_of_getElem? hc)
  obtain ⟨a, m, ha, hm, hle⟩ := h.working p hp
  obtain ⟨hfirst, hlater, b, hb, hdescends, hdepth⟩ := h.support q hq
  rw [hrecording.record.index_eq ha, hrecording.record.index_eq hb] at hparents
  have hat : x'.derivation.toList[x.derivation.toList.length + i]? = some c := by
    rw [hy.toList, List.getElem?_append_right (by omega), Nat.add_sub_cancel_left, hc]
  have hbefore : ∀ {k m : Nat}, (depthsOf x.derivation.toList)[k]? = some m →
      (depthsOf (x'.derivation.toList.take (x.derivation.toList.length + i)))[k]? = some m := by
    intro k m hk
    rw [hy.toList, List.take_length_add_append]
    exact depthsOf_append _ hk
  refine ⟨hproper, ⟨a, b, q, hparents, ?_, hfirst, hlater⟩, ?_, ?_⟩
  · rw [hy.toList]
    exact getElem?_append_of_some _ hb
  · obtain ⟨u, s, hs, hu, hleads⟩ := hdescends.append hnames hy.toList
    refine ⟨u, s, hs, hu, .head ⟨c, ?_, ?_⟩ hleads⟩
    · rw [Derivation.get?_natCast, hat]
    · simp [hparents]
  · rw [depthsOf_derived hat hparents (hbefore hm) (hbefore hdepth), max_eq_right hle]

/-- The laps go on with one that registers the clauses `new`. -/
theorem Traced.snoc (h : e₀.Traced units laps d) (hnames : ∀ c ∈ d.toList, ∀ x ∈ c.parents, 0 ≤ x)
    (hd : d'.toList = d.toList ++ new) (hseen : (e₀.seen laps).size = d.toList.length) (lap : Lap)
    (hafter : lap.after.size = d'.toList.length)
    (hnew : ∀ (i : Nat) (c : Clause), new[i]? = some c → e₀.DerivedAfter units laps d' (d.toList.length + i) c) :
    e₀.Traced units (laps ++ [lap]) d' := by
  have hlength : d'.toList.length = d.toList.length + new.length := by rw [hd, List.length_append]
  refine ⟨fun c hc hparents => ?_, fun l hl => ?_, fun past l rest hlaps i c hle hlt hc => ?_⟩
  · rw [hd] at hc
    rcases List.mem_append.1 hc with hc | hc
    · exact h.proper c hc hparents
    · obtain ⟨i, hi⟩ := List.mem_iff_getElem?.1 hc
      exact (hnew i c hi).proper
  · rcases List.mem_append.1 hl with hl | hl
    · have := h.bounded l hl
      omega
    · rw [List.mem_singleton.1 hl, hafter]
  · rcases append_singleton_eq hlaps with ⟨-, rfl, rfl⟩ | ⟨rest', -, hpast⟩
    · rw [hseen] at hle
      rw [hd, List.getElem?_append_right hle] at hc
      have hderived := hnew _ c hc
      rwa [Nat.add_sub_cancel' hle] at hderived
    · have hbound := h.bounded l (by simp [hpast])
      rw [hd, List.getElem?_append_left (by omega)] at hc
      exact (h.derived past l rest' hpast i c hle hlt hc).append hnames hd

/-- **A round adds one layer**, and if it brings something new, this is the next support. -/
theorem Layered.round (h : e₀.Layered units laps x) (hr : Rounds e₀ laps x) (hrecording : x.Recording base first)
    (hbase : ∀ c ∈ base, c.parents = []) (hround : x.round n = (report, x')) :
    e₀.Traced units (laps ++ [⟨report, x'.view⟩]) x'.derivation ∧
      (report.ending = .productive → e₀.Layered units (laps ++ [⟨report, x'.view⟩]) x') := by
  obtain ⟨new, hy⟩ := yields_round hround
  have hnames := hrecording.record.parents_nonneg hbase
  have hsize : (e₀.seen laps).size = x.derivation.toList.length := by
    rw [hr.seen_eq]
    exact Derivation.size_eq _
  have hnew := fun (i : Nat) (c : Clause) => h.derivedAfter hrecording hbase hy (i := i) (c := c)
  have htraced := h.traced.snoc hnames hy.toList hsize ⟨report, x'.view⟩ (Derivation.size_eq _) hnew
  have hat : ∀ {i : Nat} {c : Clause}, new[i]? = some c →
      x'.derivation.toList[x.derivation.toList.length + i]? = some c := by
    intro i c hc
    rw [hy.toList, List.getElem?_append_right (by omega), Nat.add_sub_cancel_left, hc]
  refine ⟨htraced, fun hending => ⟨htraced, fun q hq => ⟨by simp, fun _ => ?_, ?_⟩, fun p hp => ?_⟩⟩
  · obtain ⟨hmem, hworking⟩ := hy.productive hending q hq
    refine ⟨by simpa [seen, view] using hworking, fun hold => ?_⟩
    -- a clause of the working set before the round stands earlier in the derivation
    rw [List.dropLast_concat, hr.seen_eq] at hold
    obtain ⟨k, hk, hindex⟩ := hrecording.record.exists_index (hrecording.working hold)
    obtain ⟨i, hi⟩ := List.mem_iff_getElem?.1 hmem
    have hplaces := hy.places i q hi
    have hlt := lt_of_getElem? hk
    simp only [Clause.index, Clause.index?, hplaces] at hindex
    simp at hindex
    omega
  · obtain ⟨i, hi⟩ := List.mem_iff_getElem?.1 (hy.productive hending q hq).1
    refine ⟨_, hat hi, (hnew i q hi).descends, ?_⟩
    rw [(hnew i q hi).depth, List.length_append, List.length_singleton]
  · rw [List.length_append, List.length_singleton]
    rcases hy.working p hp with hp | hp
    · obtain ⟨i, m, hi, hm, hle⟩ := h.working p hp
      refine ⟨i, m, ?_, ?_, by omega⟩
      · rw [hy.toList]
        exact getElem?_append_of_some _ hi
      · rw [hy.toList]
        exact depthsOf_append _ hm
    · obtain ⟨i, hi⟩ := List.mem_iff_getElem?.1 hp
      exact ⟨_, _, hat hi, (hnew i p hi).depth, le_refl _⟩

theorem Layered.rounds (h : e₀.Layered units [] e₀) (hrecording : e₀.Recording base first)
    (hbase : ∀ c ∈ base, c.parents = []) (hr : Rounds e₀ laps x) : e₀.Layered units laps x := by
  induction hr with
  | nil => exact h
  | snoc hr hround hend ih => exact (ih.round hr (hrecording.rounds hr) hbase hround).2 hend

/-! ## The derivation of a run -/

/-- The derivation of a run lists copies of the knowledge base, the units of the negated goal, and derived clauses.
Each clause knows its position.  A derived clause is no tautology, has a greater number than all clauses before it, and
is the resolvent of two of them, which it names. -/
structure Arranged (e : Engine) (goal : Clause) (d : Derivation) (copies units derived : List Clause) : Prop where
  toList : d.toList = copies ++ units ++ derived
  copyKeys : copies.map Clause.literals = e.knowledge.keys
  copyIds : copies.map Clause.id = e.knowledge.ids
  unitKeys : units.map Clause.literals = goal.literals.toList.map fun l => .singleton l.complement
  asserted : ∀ c ∈ copies ++ units, c.parents = []
  index : ∀ (i : Nat) (c : Clause), d.toList[i]? = some c → c.index? = some i
  proper : ∀ c ∈ derived, c.isTautology = false
  increasing : derived.Pairwise (·.id < ·.id)
  above : ∀ c ∈ copies ++ units, ∀ c' ∈ derived, c.id < c'.id
  resolvent : ∀ (i : Nat) (c : Clause), (copies ++ units).length ≤ i → d.toList[i]? = some c →
    ∃ (a b : Nat) (p q : Clause), a < i ∧ b < i ∧ d.toList[a]? = some p ∧ d.toList[b]? = some q ∧
      c.parents = [(a : Int), (b : Int)] ∧ c.Resolves p q

/-- The derivation of a run from `e₀` begins with the clauses `base`, and the laps account for all others. -/
structure Laid (e₀ : Engine) (base units : List Clause) (laps : List Lap) (d : Derivation) : Prop
    extends Traced e₀ units laps d where
  opening : (e₀.seen []).size = base.length
  whole : (e₀.seen laps).size = d.toList.length

variable {e e' : Engine} {goal : Clause} {limit : Option Int} {r : Run}

theorem arranged_of_recorded {m : Int} (h : e.Filed) (ht : e.Tidy) (hgoal : e.goal = some goal)
    (hrecord : Recorded e.start.2.derivation.toList e.counter d.toList m)
    (hproper : ∀ c ∈ d.toList, c.parents ≠ [] → c.isTautology = false) :
    ∃ derived, e.Arranged goal d e.start.1 e.start.2.support.toList derived := by
  have ho := opens_start h
  have hfounded := founded_start h ht hgoal
  obtain ⟨derived, hd⟩ := hrecord.exists_append
  have hderived : ∀ (i : Nat) (c : Clause), e.start.2.derivation.toList.length ≤ i → d.toList[i]? = some c →
      ∃ (a b : Nat) (p q : Clause), a < i ∧ b < i ∧ d.toList[a]? = some p ∧ d.toList[b]? = some q ∧
        c.parents = [(a : Int), (b : Int)] ∧ c.Resolves p q := by
    intro i c hi hc
    have hparents : c.parents ≠ [] := by
      rcases hrecord.asserted_or_derived hc with hc | ⟨-, -, -, a, b, p, q, -, -, hab, -⟩
      · have := lt_of_getElem? hc
        omega
      · simp [hab]
    exact (hrecord.derived_of_parents hfounded hc hparents).2
  have hlater : ∀ {j : Nat} {c : Clause}, derived[j]? = some c →
      d.toList[e.start.2.derivation.toList.length + j]? = some c := by
    intro j c hc
    rw [hd, List.getElem?_append_right (by omega), Nat.add_sub_cancel_left, hc]
  have hkeys : e.start.2.support.toList.map Clause.literals =
      goal.literals.toList.map fun l => .singleton l.complement := by
    rcases ht.support with ⟨hnone, -⟩ | ⟨goal', hgoal', hkeys⟩
    · rw [hgoal] at hnone
      cases hnone
    · obtain rfl : goal = goal' := Option.some.inj (hgoal.symm.trans hgoal')
      rw [← hkeys]
      exact ho.supportKeys
  refine ⟨derived, ?_, ho.keys, ho.ids, hkeys, ?_, fun i c hc => hrecord.index hc, fun c hc => ?_, ?_, ?_, ?_⟩
  · rw [← ho.toList, hd]
  · rw [← ho.toList]
    exact ho.parents
  · obtain ⟨j, hj⟩ := List.mem_iff_getElem?.1 hc
    obtain ⟨a, b, p, q, -, -, -, -, hparents, -⟩ := hderived _ c (by omega) (hlater hj)
    apply hproper c (List.mem_of_getElem? (hlater hj))
    simp [hparents]
  · refine List.pairwise_iff_getElem.2 fun i j hi hj hij => ?_
    have hci := hlater (List.getElem?_eq_getElem hi)
    have hcj := hlater (List.getElem?_eq_getElem hj)
    exact hrecord.id_lt hfounded.below hci hcj (by omega) (by omega)
  · rw [← ho.toList]
    intro c hc c' hc'
    obtain ⟨i, hi⟩ := List.mem_iff_getElem?.1 hc
    obtain ⟨j, hj⟩ := List.mem_iff_getElem?.1 hc'
    have hlt := lt_of_getElem? hi
    refine hrecord.id_lt hfounded.below (i := i) ?_ (hlater hj) (by omega) (by omega)
    rw [hd]
    exact getElem?_append_of_some _ hi
  · rw [← ho.toList]
    exact hderived

/-- A run ends with a conflict of the knowledge base, or with a search, and its derivation is left as it was then. -/
theorem pursue_cases (h : e.Filed) (ht : e.Tidy) (hgoal : e.goal = some goal)
    (hrun : e.pursue goal limit = (r, e')) :
    (∃ p q, findConflict [] e.start.1 = some (p, q) ∧ r.laps = [] ∧
      (e'.outcome r).derivation = (e.start.2.registerConflict p q).2.derivation) ∨
    (findConflict [] e.start.1 = none ∧ ∃ e₁, Ends e.start.2 limit none (.decided r.verdict) r.laps e₁ ∧
      (e'.outcome r).derivation = e₁.derivation) := by
  cases hfind : findConflict [] e.start.1 with
  | some pair =>
    obtain ⟨p, q⟩ := pair
    rw [pursue_of_conflict hfind] at hrun
    cases hrun
    exact .inl ⟨p, q, rfl, rfl, derivationAt_reset h.toArchived (steady_registerConflict _ p q)⟩
  | none =>
    obtain ⟨verdict, hverdict⟩ := exists_verdict_proceed e.start.2 limit
    have hsteady : e.start.2.Steady (e.start.2.proceed limit none []).2.1 := steady_search _ _ _ _ _
    rw [pursue_of_search hfind hverdict] at hrun
    cases hrun
    refine .inr ⟨rfl, _, ?_, derivationAt_reset h.toArchived hsteady⟩
    exact ends_of_proceed (ht.settled.atStage hgoal) .nil (Prod.ext hverdict rfl)

theorem layered_start (h : e.Filed) : e.start.2.Layered e.start.2.support.toList [] e.start.2 := by
  have ho := opens_start h
  have hzero : ∀ c ∈ e.start.2.derivation.toList, ∃ i : Nat, e.start.2.derivation.toList[i]? = some c ∧
      (depthsOf e.start.2.derivation.toList)[i]? = some 0 := by
    intro c hc
    obtain ⟨i, hi⟩ := List.mem_iff_getElem?.1 hc
    exact ⟨i, hi, depthsOf_asserted hi (ho.parents c hc)⟩
  refine ⟨⟨fun c hc hparents => ?_, by simp, by simp⟩, fun q hq => ⟨fun _ => hq, by simp, ?_⟩, fun p hp => ?_⟩
  · exact absurd (ho.parents c hc) hparents
  · have hmem : q ∈ e.start.2.derivation.toList := by
      rw [ho.toList]
      exact List.mem_append_right _ hq
    obtain ⟨i, hi, hdepth⟩ := hzero q hmem
    exact ⟨i, hi, ⟨i, q, hq, hi, .refl⟩, hdepth⟩
  · obtain ⟨i, hi, hdepth⟩ := hzero p (ho.working_subset hp)
    exact ⟨i, 0, hi, hdepth, le_refl _⟩

/-- **A search lays its derivation out in rounds.** -/
theorem laid_of_ends {stop : Stop} (h : e.Filed) (hends : Ends e.start.2 limit none stop laps x) :
    Laid e.start.2 e.start.2.derivation.toList e.start.2.support.toList laps x.derivation ∧
      x.Recording e.start.2.derivation.toList e.counter := by
  have hparents := (opens_start h).parents
  have hstart := recording_start h
  have hlayered : ∀ {past : List Lap} {y : Engine}, Rounds e.start.2 past y →
      e.start.2.Layered e.start.2.support.toList past y :=
    fun hr => (layered_start h).rounds hstart hparents hr
  -- the last round may be one that brings nothing new or the empty clause
  have hlast : ∀ {past : List Lap} {y y' : Engine} {n : Nat} {report : RoundReport}, Rounds e.start.2 past y →
      y.round n = (report, y') →
      Laid e.start.2 e.start.2.derivation.toList e.start.2.support.toList (past ++ [⟨report, y'.view⟩])
        y'.derivation ∧ y'.Recording e.start.2.derivation.toList e.counter := by
    intro past y y' n report hr hround
    have hrecording := hstart.rounds hr
    refine ⟨⟨((hlayered hr).round hr hrecording hparents hround).1, Derivation.size_eq _, ?_⟩,
      (hrecording.round hround).1⟩
    simp [seen, view, Derivation.size_eq]
  cases hends with
  | limit hr hlimit =>
    refine ⟨⟨(hlayered hr).traced, Derivation.size_eq _, ?_⟩, hstart.rounds hr⟩
    rw [hr.seen_eq]
    exact Derivation.size_eq _
  | refuted hr hround => exact hlast hr hround
  | stalled hr hround => exact hlast hr hround
  | stalledPause _ _ _ hpause => cases hpause
  | pause _ hpause => cases hpause

/-- **The derivation of every run is arranged in rounds.**  It is laid out as `Arranged` says.  Either all that was
derived is the empty clause, from two complementary units of the knowledge base, or everything derived belongs to a
round of the run, as `DerivedAfter` says. -/
theorem arranged_in_rounds (h : e.Attained) (hgoal : e.goal = some goal) (limit : Option Int) :
    ∃ r e' copies units derived, e.run limit = .ok (r, e') ∧
      e.Arranged goal (e'.outcome r).derivation copies units derived ∧
      ((∃ p q c, findConflict [] copies = some (p, q) ∧ r.laps = [] ∧ derived = [c] ∧ c.literals = .empty ∧
          c.parents = [p.index, q.index]) ∨
        (findConflict [] copies = none ∧
          Laid e.start.2 (copies ++ units) units r.laps (e'.outcome r).derivation)) := by
  have ho := opens_start h.filed
  generalize hrun : e.pursue goal limit = result
  obtain ⟨r, e'⟩ := result
  have hok : e.run limit = .ok (r, e') := by rw [run_eq hgoal, hrun]
  rcases pursue_cases h.filed h.tidy hgoal hrun with
    ⟨p, q, hfind, hlaps, hderivation⟩ | ⟨hfind, x, hends, hderivation⟩
  · have hlist : (e'.outcome r).derivation.toList =
        e.start.2.derivation.toList ++ [(e.start.2.registerConflict p q).1] := by
      rw [hderivation, toList_registerConflict]
    have hrecord := (h.filed.recorded_conflict hfind).1
    rw [← hderivation] at hrecord
    obtain ⟨derived, harranged⟩ := arranged_of_recorded h.filed h.tidy hgoal hrecord fun c hc hparents => by
      rw [hlist] at hc
      rcases List.mem_append.1 hc with hc | hc
      · exact absurd (ho.parents c hc) hparents
      · rw [List.mem_singleton.1 hc]
        rfl
    have hone : derived = [(e.start.2.registerConflict p q).1] := by
      have heq := harranged.toList
      rw [hlist, ho.toList] at heq
      exact (List.append_cancel_left heq).symm
    exact ⟨r, e', _, _, derived, hok, harranged, .inl ⟨p, q, _, hfind, hlaps, hone, rfl, rfl⟩⟩
  · obtain ⟨hlaid, hrecording⟩ := laid_of_ends h.filed hends
    have hrecord := hrecording.record
    rw [← hderivation] at hlaid hrecord
    obtain ⟨derived, harranged⟩ := arranged_of_recorded h.filed h.tidy hgoal hrecord hlaid.proper
    rw [ho.toList] at hlaid
    exact ⟨r, e', _, _, derived, hok, harranged, .inr ⟨hfind, hlaid⟩⟩

theorem arranged_in_rounds_disjunction :
    let goal : Clause := { literals := .singleton ⟨"q", false⟩ }
    let e := ((({} : Engine).add "p v q").2.add "~p").2.aim goal
    e.Attained ∧ e.goal = some goal ∧ ∃ r e' copies units derived, e.run none = .ok (r, e') ∧
      e.Arranged goal (e'.outcome r).derivation copies units derived ∧ r.laps.length = 2 ∧
      Laid e.start.2 (copies ++ units) units r.laps (e'.outcome r).derivation := by
  intro goal e
  have h : e.Attained := ⟨[.add "p v q", .add "~p", .goal "q"], rfl⟩
  have hgoal : e.goal = some goal := rfl
  have hlength : (e.pursue goal none).1.laps.length = 2 := by decide +kernel
  have hrun := run_eq hgoal none
  clear_value e
  obtain ⟨r, e', copies, units, derived, hok, harranged, hrounds⟩ := arranged_in_rounds h hgoal none
  rw [hrun] at hok
  rw [Except.ok.inj hok] at hlength
  rcases hrounds with ⟨-, -, -, -, hlaps, -⟩ | ⟨-, hlaid⟩
  · rw [hlaps] at hlength
    cases hlength
  · exact ⟨h, hgoal, r, e', copies, units, derived, hrun.trans hok, harranged, hlength, hlaid⟩

end Engine

end Clausal
