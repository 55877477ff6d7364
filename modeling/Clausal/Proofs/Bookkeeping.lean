import Clausal.Proofs.Sessions
import Mathlib.Data.Set.Card

/-!
# The books of an engine

Between two runs the numbers of the clauses are in order: those of the knowledge base increase in the order in
which the clauses came in, and the counter is beyond all numbers that are in use.  Adding takes the next number
also for a text that is no clause, the end of a run numbers anew, and a saved counter may be raised; all of them
keep it so.

* `ClauseTable.keys`, `ClauseTable.ids`: the literal sets and the numbers of a table, in order;
* `Engine.Tidy`: the books are in order.  It is an invariant of sessions (`Engine.invariant_tidy`).
-/

namespace Clausal

/-! ## Tables in order -/

namespace ClauseTable

variable {t u : ClauseTable} {c d : Clause} {cs out : List Clause}

/-- The literal sets of a table, in order. -/
def keys (t : ClauseTable) : List LiteralSet := t.toList.map Clause.literals

/-- The numbers of the clauses of a table, in order. -/
def ids (t : ClauseTable) : List Int := t.toList.map Clause.id

theorem mem_keys {s : LiteralSet} : s ∈ t.keys ↔ s ∈ t.sets := by
  simp [keys, mem_sets]

theorem nodup_keys (t : ClauseTable) : t.keys.Nodup := List.pairwise_map.2 t.distinct

theorem sets_eq_coe (t : ClauseTable) : t.sets = ↑t.keys.toFinset := by
  ext s
  simp [← mem_keys]

theorem finite_sets (t : ClauseTable) : t.sets.Finite := t.sets_eq_coe ▸ Finset.finite_toSet _

/-- There are as many clauses in a table as there are literal sets. -/
theorem ncard_sets (t : ClauseTable) : t.sets.ncard = t.size := by
  rw [sets_eq_coe, Set.ncard_coe_finset, List.toFinset_card_of_nodup t.nodup_keys]
  exact List.length_map _

theorem size_congr (h : t.sets = u.sets) : t.size = u.size := by
  rw [← ncard_sets, h, ncard_sets]

theorem eq_of_literals_eq (hc : c ∈ t.toList) (hd : d ∈ t.toList) (h : c.literals = d.literals) :
    c = d := List.inj_on_of_nodup_map t.nodup_keys hc hd h

theorem toList_putAll (h : (t.toList ++ cs).Pairwise fun c d => c.literals ≠ d.literals) :
    (t.putAll cs).toList = t.toList ++ cs := by
  induction cs generalizing t with
  | nil => simp [putAll]
  | cons c cs ih =>
    have hnew : t.contains c.literals = false := by
      rw [contains_eq_false_iff, mem_sets]
      rintro ⟨d, hd, he⟩
      exact (List.pairwise_append.1 h).2.2 d hd c (by simp) he
    have hput := toList_put_of_new hnew
    have hstep : t.putAll (c :: cs) = (t.put c).putAll cs := rfl
    rw [hstep, ih, hput]
    · simp
    · rw [hput]
      simpa using h

theorem toList_ofList (h : cs.Pairwise fun c d => c.literals ≠ d.literals) :
    (ofList cs).toList = cs := toList_putAll h

/-- What a clause and the one that takes its place have in common, the table keeps. -/
theorem map_put {β : Type} {f : Clause → β} (hc : c ∈ t.toList) (hl : d.literals = c.literals)
    (hf : f d = f c) : (t.put d).toList.map f = t.toList.map f := by
  have hcontains : t.contains d.literals = true := contains_iff.2 ⟨c, hc, hl.symm⟩
  rw [toList_put_of_contains hcontains, List.map_map]
  refine List.map_congr_left fun b hb => ?_
  by_cases hbd : b.literals = d.literals
  · have hbc : b = c := eq_of_literals_eq hb hc (hbd.trans hl)
    simp [hbc, hl, hf]
  · simp [hbd]

theorem ids_filter_sublist {p : Clause → Bool} : (t.filter p).ids.Sublist t.ids :=
  List.filter_sublist.map _

theorem ids_of_absorb (h : t.absorb c = some (out, u)) :
    ∃ kept : List Int, u.ids = kept ++ [c.id] ∧ kept.Sublist t.ids := by
  refine ⟨(t.filter (!c.subsumes ·)).ids, ?_, ids_filter_sublist⟩
  simp [ids, (toList_of_absorb h).2]

end ClauseTable

theorem Clause.id_of_parse {id : Int} {text : String} {c : Clause} (h : Clause.parse id text = .ok c) :
    c.id = id ∧ c.parents = [] ∧ c.places = [] := by
  unfold Clause.parse at h
  cases hl : parseLiterals text.toList with
  | error error =>
    rw [hl] at h
    cases h
  | ok literals =>
    rw [hl] at h
    cases h
    exact ⟨rfl, rfl, rfl⟩

namespace Engine

/-! ## Numbers that are given -/

/-- Numbers from `next` on. -/
def numbersFrom (next : Int) (n : Nat) : List Int := (List.range n).map fun i : Nat => next + i

theorem numbersFrom_succ (next : Int) (n : Nat) :
    numbersFrom next (n + 1) = next :: numbersFrom (next + 1) n := by
  simp only [numbersFrom, List.range_succ_eq_map, List.map_cons, List.map_map]
  congr 1
  · simp
  · refine List.map_congr_left fun i _ => ?_
    simp only [Function.comp_apply]
    omega

theorem mem_numbersFrom {next k : Int} {n : Nat} :
    k ∈ numbersFrom next n ↔ next ≤ k ∧ k < next + n := by
  simp only [numbersFrom, List.mem_map, List.mem_range]
  constructor
  · rintro ⟨i, hi, rfl⟩
    omega
  · intro h
    exact ⟨(k - next).toNat, by omega, by omega⟩

theorem pairwise_numbersFrom (next : Int) (n : Nat) : (numbersFrom next n).Pairwise (· < ·) := by
  refine List.pairwise_map.2 (List.pairwise_lt_range.imp ?_)
  omega

theorem nodup_of_increasing {ns : List Int} (h : ns.Pairwise (· < ·)) : ns.Nodup :=
  h.imp fun hlt => ne_of_lt hlt

theorem ids_negationUnits (next : Int) (ls : List Literal) :
    (negationUnits next ls).map Clause.id = numbersFrom next ls.length := by
  induction ls generalizing next with
  | nil => rfl
  | cons l ls ih => rw [negationUnits, List.map_cons, ih, List.length_cons, numbersFrom_succ]

theorem literals_negationUnits (next : Int) (ls : List Literal) :
    (negationUnits next ls).map Clause.literals = ls.map fun l => .singleton l.complement := by
  induction ls generalizing next with
  | nil => rfl
  | cons l ls ih => rw [negationUnits, List.map_cons, List.map_cons, ih]

theorem ids_renumbered (next : Int) (cs : List Clause) :
    (renumbered next cs).map Clause.id = numbersFrom next cs.length := by
  induction cs generalizing next with
  | nil => rfl
  | cons c cs ih => rw [renumbered, List.map_cons, ih, List.length_cons, numbersFrom_succ]

theorem toList_support_aim (e : Engine) (goal : Clause) :
    (e.aim goal).support.toList = negationUnits e.counter goal.literals.toList := by
  refine ClauseTable.toList_ofList ?_
  rw [← List.pairwise_map (f := Clause.literals), literals_negationUnits]
  refine List.pairwise_map.2 (goal.literals.increasing.imp fun {l m} hlt heq => ?_)
  have hlm : l = m := by
    rw [← Literal.complement_complement l, LiteralSet.singleton_inj.1 heq,
      Literal.complement_complement]
  exact Literal.lt_irrefl m (hlm ▸ hlt)

theorem toList_knowledge_reset (e : Engine) :
    e.reset.knowledge.toList = renumbered 1 e.knowledge.toList := by
  refine ClauseTable.toList_ofList ?_
  rw [← List.pairwise_map (f := Clause.literals), map_literals_renumbered]
  exact e.knowledge.nodup_keys

theorem keys_knowledge_reset (e : Engine) : e.reset.knowledge.keys = e.knowledge.keys := by
  unfold ClauseTable.keys
  rw [toList_knowledge_reset, map_literals_renumbered]

theorem ids_knowledge_reset (e : Engine) :
    e.reset.knowledge.ids = numbersFrom 1 e.knowledge.toList.length := by
  unfold ClauseTable.ids
  rw [toList_knowledge_reset, ids_renumbered]

/-! ## Engines with their books in order -/

/-- The books of an engine are in order: the knowledge base is free of redundancy, its numbers increase from 1
on, the counter is beyond every number that is in use, and no number is in use twice.  There is nothing left of
a run, and the support is the negation of the goal. -/
structure Tidy (e : Engine) : Prop where
  begun : 1 ≤ e.counter
  irredundant : Irredundant e.knowledge.sets
  increasing : e.knowledge.ids.Pairwise (· < ·)
  positive : ∀ n ∈ e.knowledge.ids, 1 ≤ n
  below : ∀ n ∈ e.knowledge.ids ++ e.support.ids, n < e.counter
  distinct : (e.knowledge.ids ++ e.support.ids).Nodup
  working : e.working.toList = []
  support : (e.goal = none ∧ e.support.toList = []) ∨
    ∃ goal, e.goal = some goal ∧
      e.support.keys = goal.literals.toList.map fun l => .singleton l.complement

section Tidy

variable {e e' : Engine} {c : Clause} {text : String}

theorem Tidy.count (h : e.Tidy) {n : Int} (hn : e.counter ≤ n) : { e with counter := n }.Tidy := by
  refine ⟨h.begun.trans hn, h.irredundant, h.increasing, h.positive, fun k hk => ?_, h.distinct,
    h.working, h.support⟩
  exact lt_of_lt_of_le (h.below k hk) hn

/-- Some of the clauses of the knowledge base are left. -/
theorem Tidy.sublist (h : e.Tidy) {knowledge : ClauseTable} (hsets : knowledge.sets ⊆ e.knowledge.sets)
    (hids : knowledge.ids.Sublist e.knowledge.ids) : { e with knowledge }.Tidy := by
  have hall := hids.append (List.Sublist.refl e.support.ids)
  exact ⟨h.begun, h.irredundant.subset hsets, h.increasing.sublist hids,
    fun n hn => h.positive n (hids.subset hn), fun n hn => h.below n (hall.subset hn),
    h.distinct.sublist hall, h.working, h.support⟩

/-- A clause that is learned has the last number that was given. -/
theorem Tidy.learn (h : e.Tidy) (hc : c.literals ≠ .empty) (hid : c.id = e.counter) :
    (({ e with counter := e.counter + 1 } : Engine).learn c).Tidy := by
  have hcount : ({ e with counter := e.counter + 1 } : Engine).Tidy := h.count (by omega)
  have hirr := irredundant_learn hcount.irredundant hc
  unfold Engine.learn at hirr ⊢
  split
  · exact hcount
  · rename_i htaut
    rw [if_neg htaut] at hirr
    dsimp only at hirr ⊢
    cases habs : e.knowledge.absorb c with
    | none => exact hcount
    | some result =>
      obtain ⟨out, knowledge⟩ := result
      rw [habs] at hirr
      obtain ⟨kept, hids, hkept⟩ := ClauseTable.ids_of_absorb habs
      have hall := hkept.append (List.Sublist.refl e.support.ids)
      have hlt : ∀ n ∈ kept ++ e.support.ids, n < e.counter := fun n hn => h.below n (hall.subset hn)
      have hmem : ∀ n, n ∈ knowledge.ids ++ e.support.ids ↔ n = c.id ∨ n ∈ kept ++ e.support.ids := by
        intro n
        simp only [hids, List.mem_append, List.mem_singleton]
        tauto
      refine ⟨hcount.begun, hirr, ?_, fun n hn => ?_, fun n hn => ?_, ?_, h.working, h.support⟩
      · show knowledge.ids.Pairwise (· < ·)
        rw [hids]
        refine List.pairwise_append.2 ⟨h.increasing.sublist hkept, by simp, fun m hm n hn => ?_⟩
        rw [List.mem_singleton.1 hn, hid]
        exact hlt m (List.mem_append_left _ hm)
      · rw [show _ = knowledge.ids from rfl, hids] at hn
        rcases List.mem_append.1 hn with hn | hn
        · exact h.positive n (hkept.subset hn)
        · rw [List.mem_singleton.1 hn, hid]
          exact h.begun
      · rcases (hmem n).1 hn with rfl | hn
        · show c.id < e.counter + 1
          omega
        · have := hlt n hn
          show n < e.counter + 1
          omega
      · show (knowledge.ids ++ e.support.ids).Nodup
        have hperm : (knowledge.ids ++ e.support.ids).Perm (c.id :: (kept ++ e.support.ids)) := by
          rw [hids, List.append_assoc]
          exact List.perm_middle
        refine hperm.nodup_iff.2 (List.nodup_cons.2 ⟨fun hn => ?_, h.distinct.sublist hall⟩)
        have := hlt _ hn
        omega

theorem Tidy.aim (h : e.Tidy) (goal : Clause) : (e.aim goal).Tidy := by
  have hbegun := h.begun
  have hids : (e.aim goal).support.ids = numbersFrom e.counter goal.literals.toList.length := by
    unfold ClauseTable.ids
    rw [toList_support_aim, ids_negationUnits]
  have hknown : ∀ n ∈ e.knowledge.ids, n < e.counter := fun n hn => h.below n (List.mem_append_left _ hn)
  refine ⟨?_, h.irredundant, h.increasing, h.positive, fun n hn => ?_, ?_, h.working,
    .inr ⟨goal, rfl, ?_⟩⟩
  · show 1 ≤ e.counter + goal.literals.toList.length
    omega
  · show n < e.counter + goal.literals.toList.length
    rcases List.mem_append.1 hn with hn | hn
    · have := hknown n hn
      omega
    · rw [hids] at hn
      exact (mem_numbersFrom.1 hn).2
  · refine List.nodup_append.2 ⟨nodup_of_increasing h.increasing, ?_, fun m hm n hn => ?_⟩
    · rw [hids]
      exact nodup_of_increasing (pairwise_numbersFrom _ _)
    · rw [hids] at hn
      have hge := (mem_numbersFrom.1 hn).1
      have := hknown m hm
      omega
  · unfold ClauseTable.keys
    rw [toList_support_aim, literals_negationUnits]

theorem tidy_reset (h : Irredundant e.knowledge.sets) : e.reset.Tidy := by
  have hids := ids_knowledge_reset e
  have hcounter : e.reset.counter = 1 + e.knowledge.toList.length := by
    show 1 + ((renumbered 1 e.knowledge.toList).length : Int) = _
    rw [← List.length_map (f := Clause.literals), map_literals_renumbered, List.length_map]
  have hnone : e.reset.support.ids = [] := rfl
  refine ⟨by omega, irredundant_reset h, ?_, fun n hn => ?_, fun n hn => ?_, ?_, rfl,
    .inl ⟨rfl, rfl⟩⟩
  · rw [hids]
    exact pairwise_numbersFrom _ _
  · rw [hids] at hn
    exact (mem_numbersFrom.1 hn).1
  · rw [hnone, List.append_nil, hids] at hn
    rw [hcounter]
    exact (mem_numbersFrom.1 hn).2
  · rw [hnone, List.append_nil, hids]
    exact nodup_of_increasing (pairwise_numbersFrom _ _)

theorem tidy_fresh : ({} : Engine).Tidy :=
  ⟨le_refl 1, settled_fresh.knowledge, .nil, by simp [ClauseTable.ids], by simp [ClauseTable.ids],
    by simp [ClauseTable.ids], rfl, .inl ⟨rfl, rfl⟩⟩

theorem Tidy.add (h : e.Tidy) (text : String) : (e.add text).2.Tidy := by
  unfold Engine.add
  cases hp : Clause.parse e.counter text with
  | error error => exact h.count (by omega)
  | ok c => exact h.learn (Clause.literals_ne_empty_of_parse hp) (Clause.id_of_parse hp).1

theorem Tidy.remove (h : e.Tidy) (hremove : e.remove text = .ok e') : e'.Tidy := by
  obtain ⟨c, -, rfl⟩ := remove_eq_ok_iff.1 hremove
  refine h.sublist ?_ ClauseTable.ids_filter_sublist
  rw [ClauseTable.sets_erase]
  exact Set.sdiff_subset

/-! ## The invariant -/

theorem kept_irredundant : Kept fun e => Irredundant e.knowledge.sets :=
  kept_of_sets (fun hsub h => h.subset hsub) fun text h => irredundant_add h text

theorem invariant_irredundant : Invariant (fun e => Irredundant e.knowledge.sets)
    (fun e => Irredundant e.knowledge.sets) :=
  invariant_of_sets (tidy_fresh.irredundant.subset (Set.empty_subset _)) kept_irredundant

theorem kept_tidy : Kept Tidy where
  add text h := h.add text
  remove h hremove := h.remove hremove
  setGoal h hgoal := by
    obtain ⟨c, -, rfl⟩ := setGoal_eq_ok_iff.1 hgoal
    exact h.aim c
  count h hn := h.count hn
  register h _ := ⟨h.begun, h.irredundant, h.increasing, h.positive, h.below, h.distinct, h.working,
    h.support⟩
  enlistKnown {e c} h hc hplaces := by
    -- a registered clause has the literals and the number that it had
    have hids : (e.knowledge.put (e.register c).1).ids = e.knowledge.ids :=
      ClauseTable.map_put hc rfl rfl
    refine ⟨h.begun, kept_irredundant.enlistKnown h.irredundant hc hplaces, ?_, ?_, ?_, ?_, h.working,
      h.support⟩
    · exact hids ▸ h.increasing
    · exact hids ▸ h.positive
    · exact hids ▸ h.below
    · exact hids ▸ h.distinct
  enlistSupport {e c} h hc _ := by
    have hids : (e.support.put (e.register c).1).ids = e.support.ids := ClauseTable.map_put hc rfl rfl
    have hkeys : (e.support.put (e.register c).1).keys = e.support.keys :=
      ClauseTable.map_put hc rfl rfl
    refine ⟨h.begun, h.irredundant, h.increasing, h.positive, ?_, ?_, h.working, ?_⟩
    · exact hids ▸ h.below
    · exact hids ▸ h.distinct
    · refine h.support.imp (fun hnone => ?_) ?_
      · rw [hnone.2] at hc
        cases hc
      · rintro ⟨goal, hgoal, hsupport⟩
        exact ⟨goal, hgoal, hkeys.trans hsupport⟩

theorem invariant_tidy : Invariant (fun e => Irredundant e.knowledge.sets) Tidy where
  duringRuns := kept_irredundant
  betweenRuns := kept_tidy
  busy_of_idle h := h.irredundant
  fresh := tidy_fresh
  start := invariant_irredundant.start
  round := invariant_irredundant.round
  conflict := invariant_irredundant.conflict
  reset h := tidy_reset h

theorem Attained.tidy (h : e.Attained) : e.Tidy := h.idle invariant_tidy

theorem Tidy.settled (h : e.Tidy) : e.Settled := by
  refine ⟨h.irredundant, fun goal hgoal => ?_⟩
  rcases h.support with ⟨hnone, -⟩ | ⟨goal', hgoal', hkeys⟩
  · rw [hgoal] at hnone
    cases hnone
  · obtain rfl : goal = goal' := Option.some.inj (hgoal.symm.trans hgoal')
    ext u
    rw [← ClauseTable.mem_keys, hkeys]
    simp [negation, LiteralSet.mem_toList, eq_comm]

end Tidy

/-- **The books are in order after every session**, whatever was asked of the engines, also by calls that failed
and by hooks in the middle of runs: the clauses of the knowledge base are known by their literals, and none
subsumes another; numbers, goal, support and working set are as `Tidy` says. -/
theorem tidy_engineAt (steps : List Step) (number : Nat) :
    let e := (Step.performAll steps {}).2.engineAt number
    (∀ s, e.knowledge.contains s = true ↔ ∃! c, c ∈ e.knowledge.toList ∧ c.literals = s) ∧
    (∀ c ∈ e.knowledge.toList, c.literals ≠ .empty ∧ c.isTautology = false) ∧
    (e.knowledge.toList.Pairwise fun c d => ¬c.literals ⊆ d.literals ∧ ¬d.literals ⊆ c.literals) ∧
    e.Tidy := by
  intro e
  have h : e.Tidy := Session.idle_engineAt invariant_tidy steps number
  refine ⟨fun s => ?_, fun c hc => ?_, ?_, h⟩
  · rw [ClauseTable.contains_iff]
    constructor
    · rintro ⟨c, hc, rfl⟩
      exact ⟨c, ⟨hc, rfl⟩, fun d hd => ClauseTable.eq_of_literals_eq hd.1 hc hd.2⟩
    · rintro ⟨c, hc, -⟩
      exact ⟨c, hc⟩
  · have hmem := ClauseTable.literals_mem_sets hc
    exact ⟨fun he => h.irredundant.nonempty (he ▸ hmem), h.irredundant.proper _ hmem⟩
  · refine e.knowledge.distinct.imp_of_mem fun hc hd hne => ?_
    have hc := ClauseTable.literals_mem_sets hc
    have hd := ClauseTable.literals_mem_sets hd
    exact ⟨fun hsub => hne (h.irredundant.antichain.eq hc hd hsub),
      fun hsub => hne (h.irredundant.antichain.eq hd hc hsub).symm⟩

end Engine

end Clausal
