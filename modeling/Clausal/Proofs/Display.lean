import Clausal.Proofs.Record
import Clausal.Proofs.Walk

/-!
# Proofs as they are shown

The steps of a proof are those clauses of the record of a run from which the empty clause was derived, in the order
of their numbers.  In a record a clause has a greater number than its parents, so what is shown is a resolution
refutation, step by step (`Refutes`), and the trace tells it as such (`Engine.refutes_of_proven`).
-/

namespace Clausal

/-- How the `j`-th step is justified: it is asserted, or it is the resolvent of the steps at two positions before
it, which are its parents. -/
def Justifies (steps : List Clause) (j : Nat) (c : Clause) : Option (Nat × Nat) → Prop
  | none => c.parents = []
  | some (a, b) => a < j ∧ b < j ∧ ∃ p q, steps[a]? = some p ∧ steps[b]? = some q ∧
      c.parents = [p.index, q.index] ∧ c.Resolves p q

/-- A resolution refutation of the negation of a goal with the knowledge `K`, in the order in which it is shown:
the first `m` steps are asserted, the others are resolvents of the steps that `premises` gives, every step but the
last is used later, and the last one alone is empty. -/
structure Refutes (K : List LiteralSet) (goal : LiteralSet) (d : Derivation) (steps : List Clause)
    (premises : Nat → Option (Nat × Nat)) (m : Nat) : Prop where
  lt_length : m < steps.length
  increasing : steps.Pairwise (·.id < ·.id)
  registered : ∀ c ∈ steps, d.get c.index = .ok c
  empty_iff : ∀ (i : Nat) (c : Clause), steps[i]? = some c →
    (c.literals = .empty ↔ i + 1 = steps.length)
  justified : ∀ (j : Nat) (c : Clause), steps[j]? = some c → Justifies steps j c (premises j)
  asserted_iff : ∀ i < steps.length, i < m ↔ premises i = none
  asserted : ∀ (i : Nat) (c : Clause), steps[i]? = some c → premises i = none →
    c.literals ∈ K ∨ ∃ l ∈ goal, c.literals = .singleton l.complement
  used : ∀ i, i + 1 < steps.length → ∃ j a b, i < j ∧ j < steps.length ∧
    premises j = some (a, b) ∧ (i = a ∨ i = b)

theorem Justifies.eq_none_iff {steps : List Clause} {j : Nat} {c : Clause} {premises : Option (Nat × Nat)}
    (h : Justifies steps j c premises) : premises = none ↔ c.parents = [] := by
  cases premises with
  | none => exact iff_of_true rfl h
  | some pair =>
    obtain ⟨-, -, p, q, -, -, hpq, -⟩ := h
    simp [hpq]

/-! ## Records with the empty clause -/

/-- What a record may begin with: asserted clauses that are not empty, with different numbers before `first`. -/
structure Founded (base : List Clause) (first : Int) : Prop where
  parents : ∀ c ∈ base, c.parents = []
  below : ∀ c ∈ base, c.id < first
  distinct : (base.map Clause.id).Nodup
  nonempty : ∀ c ∈ base, c.literals ≠ .empty

namespace Recorded

variable {base : List Clause} {first n : Int} {d : Derivation} {c c' : Clause} {i j k : Nat}

/-- A clause with parents was derived from earlier ones. -/
theorem derived_of_parents (h : Recorded base first d.toList n) (hb : Founded base first)
    (hc : d.toList[i]? = some c) (hparents : c.parents ≠ []) :
    base.length ≤ i ∧ ∃ (a b : Nat) (p q : Clause), a < i ∧ b < i ∧ d.toList[a]? = some p ∧
      d.toList[b]? = some q ∧ c.parents = [(a : Int), (b : Int)] ∧ c.Resolves p q := by
  rcases h.asserted_or_derived hc with hc | ⟨hi, -, -, a, b, p, q, hp, hq, hab, hres⟩
  · exact absurd (hb.parents c (List.mem_of_getElem? hc)) hparents
  · have hbefore : ∀ {a : Nat} {p : Clause}, (d.toList.take i)[a]? = some p →
        a < i ∧ d.toList[a]? = some p := by
      intro a p hp
      rw [List.getElem?_take] at hp
      split at hp
      · exact ⟨‹_›, hp⟩
      · cases hp
    exact ⟨hi, a, b, p, q, (hbefore hp).1, (hbefore hq).1, (hbefore hp).2, (hbefore hq).2, hab, hres⟩

/-- A name among the parents of a clause is the position of an earlier one. -/
theorem exists_of_names (h : Recorded base first d.toList n) (hb : Founded base first) {x : Int}
    (hnames : d.Names i x) : ∃ (a : Nat) (p c : Clause), x = a ∧ a < i ∧ base.length ≤ i ∧
      d.toList[a]? = some p ∧ d.toList[i]? = some c ∧ (a : Int) ∈ c.parents := by
  obtain ⟨c, hc, hx⟩ := hnames
  rw [Derivation.get?_natCast] at hc
  obtain ⟨hi, a, b, p, q, ha, hb, hp, hq, hab, -⟩ :=
    h.derived_of_parents hb hc (List.ne_nil_of_mem hx)
  rw [hab] at hx
  rcases List.mem_cons.1 hx with rfl | hx
  · exact ⟨a, p, c, rfl, ha, hi, hp, hc, by simp [hab]⟩
  · obtain rfl := List.mem_singleton.1 hx
    exact ⟨b, q, c, rfl, hb, hi, hq, hc, by simp [hab]⟩

theorem exists_of_leads (h : Recorded base first d.toList n) (hb : Founded base first)
    (hk : d.toList[k]? = some c) {x : Int} (hx : d.Leads k x) :
    ∃ (a : Nat) (p : Clause), x = a ∧ a ≤ k ∧ d.toList[a]? = some p := by
  induction hx with
  | refl => exact ⟨k, c, rfl, le_refl k, hk⟩
  | tail _ hnames ih =>
    obtain ⟨i, p, rfl, hik, -⟩ := ih
    obtain ⟨a, q, -, rfl, hai, -, hq, -⟩ := h.exists_of_names hb hnames
    exact ⟨a, q, rfl, by omega, hq⟩

theorem eq_of_id_eq (h : Recorded base first d.toList n) (hb : Founded base first)
    (hc : d.toList[i]? = some c) (hc' : d.toList[j]? = some c') (hid : c.id = c'.id) : i = j := by
  wlog hij : i < j generalizing i j c c'
  · by_contra hne
    exact hne (this hc' hc hid.symm (by omega)).symm
  by_cases hj : base.length ≤ j
  · have := h.id_lt hb.below hc hc' hij hj
    omega
  · have hc := (h.asserted_or_derived hc).resolve_right fun hd => by omega
    have hc' := (h.asserted_or_derived hc').resolve_right fun hd => hj hd.1
    have hmap : ∀ {i : Nat} {c : Clause}, base[i]? = some c → (base.map Clause.id)[i]? = some c.id := by
      intro i c hc
      rw [List.getElem?_map, hc, Option.map_some]
    have hlt : i < (base.map Clause.id).length := lt_of_getElem? (hmap hc)
    refine (List.getElem?_inj hlt hb.distinct).1 ?_
    rw [hmap hc, hmap hc', hid]

end Recorded

/-! ## The steps of a proof -/

/-- The steps are the clauses that are reached from a position, in the order of their numbers. -/
structure Collects (d : Derivation) (k : Nat) (steps : List Clause) : Prop where
  increasing : steps.Pairwise (·.id < ·.id)
  mem_iff : ∀ c, c ∈ steps ↔ ∃ a : Nat, d.Leads k a ∧ d.toList[a]? = some c

theorem lt_of_increasing {cs : List Clause} {i j : Nat} {c c' : Clause} (h : cs.Pairwise (·.id < ·.id))
    (hc : cs[i]? = some c) (hc' : cs[j]? = some c') (hid : c.id < c'.id) : i < j := by
  obtain ⟨hi, rfl⟩ := List.getElem?_eq_some_iff.1 hc
  obtain ⟨hj, rfl⟩ := List.getElem?_eq_some_iff.1 hc'
  by_contra hle
  rcases Nat.lt_or_eq_of_le (Nat.le_of_not_lt hle) with hlt | rfl
  · have := List.pairwise_iff_getElem.1 h j i hj hi hlt
    omega
  · omega

theorem increasing_sorted {cs : List Clause} (h : (cs.map Clause.id).Nodup) :
    (sorted (fun c d => decide (c.id ≤ d.id)) cs).Pairwise (·.id < ·.id) := by
  refine (pairwise_sorted_key Clause.id cs).imp₂ (fun _ _ => lt_of_le_of_ne) ?_
  exact List.pairwise_map.1 (((sorted_perm _ cs).map Clause.id).nodup_iff.2 h)

theorem eq_of_increasing {steps : List Clause} {i j : Nat} {c : Clause}
    (h : steps.Pairwise (·.id < ·.id)) (hi : steps[i]? = some c) (hj : steps[j]? = some c) : i = j := by
  have hnodup : steps.Nodup := h.imp fun hlt heq => by
    rw [heq] at hlt
    omega
  exact (List.getElem?_inj (lt_of_getElem? hi) hnodup).1 (hi.trans hj.symm)

section Steps

variable {base : List Clause} {first n : Int} {d : Derivation} {k : Nat} {c₀ : Clause}
  {steps : List Clause}

theorem Recorded.get?_of_leads (h : Recorded base first d.toList n) (hb : Founded base first)
    (hk : d.toList[k]? = some c₀) {x : Int} (hx : d.Leads k x) :
    ∃ (a : Nat) (p : Clause), x = a ∧ d.toList[a]? = some p ∧ d.get? x = some p := by
  obtain ⟨a, p, rfl, -, hp⟩ := h.exists_of_leads hb hk hx
  exact ⟨a, p, rfl, hp, by rw [Derivation.get?_natCast, hp]⟩

/-- The clauses that a walk reaches have numbers of their own. -/
theorem Recorded.nodup_ids (h : Recorded base first d.toList n) (hb : Founded base first)
    (hk : d.toList[k]? = some c₀) {names : List Int} {cs : List Clause} (hwalked : d.Walked k names)
    (hcs : names.mapM d.get = .ok cs) : (cs.map Clause.id).Nodup := by
  have hinj : (names.map fun x => (d.get? x).map Clause.id).Nodup := by
    refine List.Nodup.map_on (fun x hx y hy hxy => ?_) hwalked.nodup
    obtain ⟨a, p, rfl, hp, hxp⟩ := h.get?_of_leads hb hk ((hwalked.mem_iff x).1 hx)
    obtain ⟨b, q, rfl, hq, hyq⟩ := h.get?_of_leads hb hk ((hwalked.mem_iff y).1 hy)
    simp only [hxp, hyq, Option.map_some, Option.some.injEq] at hxy
    rw [h.eq_of_id_eq hb hp hq hxy]
  have hmap : (names.map fun x => (d.get? x).map Clause.id) = (cs.map Clause.id).map some := by
    rw [← Function.comp_def, ← List.map_map, Derivation.map_get?_of_mapM hcs, List.map_map, List.map_map]
    rfl
  rw [hmap] at hinj
  exact hinj.of_map some

theorem Recorded.mem_walked_iff (h : Recorded base first d.toList n) (hb : Founded base first)
    (hk : d.toList[k]? = some c₀) {names : List Int} {cs : List Clause} (hwalked : d.Walked k names)
    (hcs : names.mapM d.get = .ok cs) (c : Clause) :
    c ∈ cs ↔ ∃ a : Nat, d.Leads k a ∧ d.toList[a]? = some c := by
  constructor
  · intro hc
    obtain ⟨x, hx, hget⟩ := exists_arg_of_mapM hcs hc
    have hleads := (hwalked.mem_iff x).1 hx
    obtain ⟨a, p, rfl, hp, hxp⟩ := h.get?_of_leads hb hk hleads
    rw [Derivation.get_eq_ok_iff.1 hget] at hxp
    cases hxp
    exact ⟨a, hleads, hp⟩
  · rintro ⟨a, hleads, ha⟩
    obtain ⟨p, hp, hget⟩ := exists_result_of_mapM hcs ((hwalked.mem_iff a).2 hleads)
    rw [Derivation.get_eq_ok_iff, Derivation.get?_natCast, ha] at hget
    cases hget
    exact hp

theorem collects_proof {o : Outcome} (h : Recorded base first o.derivation.toList n)
    (hb : Founded base first) (hk : o.derivation.toList[k]? = some c₀) (hproven : o.verdict = .proven k) :
    ∃ steps, o.proof = .ok steps ∧ Collects o.derivation k steps := by
  generalize hd : o.derivation = d at h hk
  have hvalid : ∀ x, d.Leads k x → (d.get? x).isSome = true := by
    intro x hx
    obtain ⟨a, p, -, -, hp⟩ := h.get?_of_leads hb hk hx
    simp [hp]
  obtain ⟨names, hnames, hwalked⟩ := Derivation.exists_reachable hvalid
  obtain ⟨cs, hcs⟩ := hwalked.exists_clauses
  refine ⟨sorted (fun c d => decide (c.id ≤ d.id)) cs, ?_, increasing_sorted (h.nodup_ids hb hk hwalked hcs),
    fun c => ?_⟩
  · subst hd
    exact Outcome.proof_eq hproven hnames hcs
  · rw [(sorted_perm _ cs).mem_iff]
    exact h.mem_walked_iff hb hk hwalked hcs c

/-- Where a step stands in the record. -/
theorem Collects.exists_position (hs : Collects d k steps) {i : Nat} {c : Clause}
    (hc : steps[i]? = some c) : ∃ a : Nat, d.Leads k a ∧ d.toList[a]? = some c :=
  (hs.mem_iff c).1 (List.mem_of_getElem? hc)

/-- Where a clause of the record that is reached stands among the steps. -/
theorem Collects.exists_step (hs : Collects d k steps) {a : Nat} {c : Clause} (hleads : d.Leads k a)
    (hc : d.toList[a]? = some c) : ∃ i : Nat, steps[i]? = some c :=
  List.mem_iff_getElem?.1 ((hs.mem_iff c).2 ⟨a, hleads, hc⟩)

theorem Recorded.index_eq (h : Recorded base first d.toList n) {a : Nat} {c : Clause}
    (hc : d.toList[a]? = some c) : c.index = a := by
  rw [Clause.index, h.index hc]

/-- Steps are told apart by where they were registered. -/
theorem Collects.eq_of_index_eq (hs : Collects d k steps) (h : Recorded base first d.toList n) {i j : Nat}
    {c c' : Clause} (hc : steps[i]? = some c) (hc' : steps[j]? = some c') (hindex : c.index = c'.index) :
    i = j := by
  obtain ⟨x, -, hx⟩ := hs.exists_position hc
  obtain ⟨y, -, hy⟩ := hs.exists_position hc'
  rw [h.index_eq hx, h.index_eq hy] at hindex
  obtain rfl : x = y := by exact_mod_cast hindex
  obtain rfl : c = c' := Option.some.inj (hx.symm.trans hy)
  exact eq_of_increasing hs.increasing hc hc'

/-- A step is a resolvent of the steps that it names, which stand before it. -/
theorem Collects.derived (hs : Collects d k steps) (h : Recorded base first d.toList n)
    (hb : Founded base first) {j : Nat} {c : Clause} (hc : steps[j]? = some c) (hparents : c.parents ≠ []) :
    ∃ a b p q, a < j ∧ b < j ∧ steps[a]? = some p ∧ steps[b]? = some q ∧
      c.parents = [p.index, q.index] ∧ c.Resolves p q := by
  obtain ⟨x, hx, hcx⟩ := hs.exists_position hc
  obtain ⟨hbase, y, z, p, q, hy, hz, hp, hq, hyz, hres⟩ := h.derived_of_parents hb hcx hparents
  have hnames : ∀ w ∈ c.parents, d.Leads k w := by
    intro w hw
    refine hx.tail ⟨c, ?_, hw⟩
    rw [Derivation.get?_natCast, hcx]
  obtain ⟨a, ha⟩ := hs.exists_step (hnames y (by simp [hyz])) hp
  obtain ⟨b, hb'⟩ := hs.exists_step (hnames z (by simp [hyz])) hq
  refine ⟨a, b, p, q, ?_, ?_, ha, hb', ?_, hres⟩
  · exact lt_of_increasing hs.increasing ha hc (h.id_lt hb.below hp hcx hy hbase)
  · exact lt_of_increasing hs.increasing hb' hc (h.id_lt hb.below hq hcx hz hbase)
  · rw [hyz, h.index_eq hp, h.index_eq hq]

/-- A step that is not the root of the walk is a parent of a later one. -/
theorem Collects.used (hs : Collects d k steps) (h : Recorded base first d.toList n)
    (hb : Founded base first) (hk : d.toList[k]? = some c₀) {i : Nat} {c : Clause}
    (hc : steps[i]? = some c) (hne : c ≠ c₀) :
    ∃ j c', i < j ∧ steps[j]? = some c' ∧ c.index ∈ c'.parents := by
  obtain ⟨x, hx, hcx⟩ := hs.exists_position hc
  rcases hx.cases_tail with hroot | ⟨y, hy, hnames⟩
  · obtain rfl : x = k := by exact_mod_cast hroot
    rw [hk] at hcx
    exact absurd (Option.some.inj hcx).symm hne
  · obtain ⟨y, -, rfl, -⟩ := h.exists_of_leads hb hk hy
    obtain ⟨a, p, c', hxa, ha, hbase, hp, hc', hmem⟩ := h.exists_of_names hb hnames
    obtain rfl : x = a := by exact_mod_cast hxa
    obtain ⟨j, hj⟩ := hs.exists_step hy hc'
    refine ⟨j, c', lt_of_increasing hs.increasing hc hj (h.id_lt hb.below hcx hc' ha hbase), hj, ?_⟩
    rw [h.index_eq hcx]
    exact hmem

/-- The last step is the root of the walk, provided that it was derived. -/
theorem Collects.exists_last (hs : Collects d k steps) (h : Recorded base first d.toList n)
    (hb : Founded base first) (hk : d.toList[k]? = some c₀) (hbase : base.length ≤ k) :
    ∃ j, steps[j]? = some c₀ ∧ j + 1 = steps.length := by
  obtain ⟨j, hj⟩ := hs.exists_step .refl hk
  refine ⟨j, hj, ?_⟩
  have hlt := lt_of_getElem? hj
  by_contra hne
  -- a step after it would stand before it in the record, and so have a smaller number
  obtain ⟨c, hc⟩ : ∃ c, steps[j + 1]? = some c := ⟨_, List.getElem?_eq_getElem (by omega)⟩
  obtain ⟨x, hx, hcx⟩ := hs.exists_position hc
  obtain ⟨y, -, hxy, hle, -⟩ := h.exists_of_leads hb hk hx
  obtain rfl : x = y := by exact_mod_cast hxy
  rcases Nat.lt_or_eq_of_le hle with hlt | rfl
  · have := lt_of_increasing hs.increasing hc hj (h.id_lt hb.below hcx hk hlt hbase)
    omega
  · rw [hk] at hcx
    have := hs.eq_of_index_eq h hc hj (by rw [Option.some.inj hcx])
    omega

/-- The empty clause is the last step, and no other step is empty. -/
theorem Collects.empty_iff (hs : Collects d k steps) (h : Recorded base first d.toList n)
    (hb : Founded base first) (hk : d.toList[k]? = some c₀) (hempty : c₀.literals = .empty) {i : Nat}
    {c : Clause} (hc : steps[i]? = some c) : c.literals = .empty ↔ i + 1 = steps.length := by
  have hbase : base.length ≤ k := by
    refine ((h.asserted_or_derived hk).resolve_left fun hbase => ?_).1
    exact hb.nonempty c₀ (List.mem_of_getElem? hbase) hempty
  obtain ⟨j, hj, hlast⟩ := hs.exists_last h hb hk hbase
  constructor
  · intro hc_empty
    have hroot : c = c₀ := by
      by_contra hne
      obtain ⟨m, c', -, hc', hmem⟩ := hs.used h hb hk hc hne
      obtain ⟨a, b, p, q, -, -, hp, hq, hpq, l, hl, hl', -⟩ :=
        hs.derived h hb hc' (List.ne_nil_of_mem hmem)
      -- a parent has the literal on which it clashes
      rw [hpq] at hmem
      rcases List.mem_cons.1 hmem with hindex | hmem
      · obtain rfl := hs.eq_of_index_eq h hc hp hindex
        rw [← Option.some.inj (hc.symm.trans hp), hc_empty] at hl
        simp at hl
      · obtain rfl := hs.eq_of_index_eq h hc hq (List.mem_singleton.1 hmem)
        rw [← Option.some.inj (hc.symm.trans hq), hc_empty] at hl'
        simp at hl'
    rw [hs.eq_of_index_eq h hc hj (by rw [hroot]), hlast]
  · intro hi
    obtain rfl : i = j := by omega
    rw [Option.some.inj (hc.symm.trans hj), hempty]

/-- A step without parents stands at the beginning of the record. -/
theorem Collects.mem_base (hs : Collects d k steps) (h : Recorded base first d.toList n) {i : Nat}
    {c : Clause} (hc : steps[i]? = some c) (hparents : c.parents = []) : c ∈ base := by
  obtain ⟨x, -, hx⟩ := hs.exists_position hc
  rcases h.asserted_or_derived hx with hx | ⟨-, -, -, a, b, p, q, -, -, hab, -⟩
  · exact List.mem_of_getElem? hx
  · rw [hab] at hparents
    cases hparents

/-- What comes before a step without parents has none either: the record begins with the smaller numbers. -/
theorem Collects.asserted_before (hs : Collects d k steps) (h : Recorded base first d.toList n)
    (hb : Founded base first) {i j : Nat} {c c' : Clause} (hc : steps[i]? = some c)
    (hc' : steps[j]? = some c') (hij : i < j) (hparents : c'.parents = []) : c.parents = [] := by
  by_contra hne
  obtain ⟨x, -, hx⟩ := hs.exists_position hc
  have hfirst : first ≤ c.id := by
    rcases h.asserted_or_derived hx with hx | ⟨-, hfirst, -⟩
    · exact absurd (hb.parents c (List.mem_of_getElem? hx)) hne
    · exact hfirst
  have hbelow := hb.below c' (hs.mem_base h hc' hparents)
  have := lt_of_increasing hs.increasing hc' hc (by omega)
  omega

/-- The steps without parents come first. -/
theorem Collects.lt_findIdx_iff (hs : Collects d k steps) (h : Recorded base first d.toList n)
    (hb : Founded base first) {i : Nat} {c : Clause} (hc : steps[i]? = some c) :
    i < steps.findIdx Clause.hasParents ↔ c.parents = [] := by
  obtain ⟨hi, rfl⟩ := List.getElem?_eq_some_iff.1 hc
  constructor
  · intro hlt
    simpa [Clause.hasParents] using List.not_of_lt_findIdx hlt
  · intro hparents
    by_contra hle
    have hm : steps.findIdx Clause.hasParents < steps.length := by omega
    have hhas := List.findIdx_getElem (w := hm)
    rcases Nat.lt_or_eq_of_le (Nat.le_of_not_lt hle) with hlt | heq
    · have := hs.asserted_before h hb (List.getElem?_eq_getElem hm) hc hlt hparents
      simp [Clause.hasParents, this] at hhas
    · simp [heq, Clause.hasParents, hparents] at hhas

theorem Collects.exists_premises (hs : Collects d k steps) (h : Recorded base first d.toList n)
    (hb : Founded base first) : ∃ premises : Nat → Option (Nat × Nat), ∀ j c, steps[j]? = some c →
      Justifies steps j c (premises j) := by
  have hstep : ∀ j, ∃ premises : Option (Nat × Nat), ∀ c, steps[j]? = some c →
      Justifies steps j c premises := by
    intro j
    cases hj : steps[j]? with
    | none => exact ⟨none, by simp⟩
    | some c =>
      by_cases hparents : c.parents = []
      · exact ⟨none, by simpa [Justifies] using hparents⟩
      · obtain ⟨a, b, p, q, ha, hb, hrest⟩ := hs.derived h hb hj hparents
        refine ⟨some (a, b), fun c' hc' => ?_⟩
        obtain rfl := Option.some.inj hc'
        exact ⟨ha, hb, p, q, hrest⟩
  choose premises hpremises using hstep
  exact ⟨premises, hpremises⟩

/-- A step that is a parent of another is one of its premises. -/
theorem Collects.eq_premise (hs : Collects d k steps) (h : Recorded base first d.toList n) {i j : Nat}
    {c c' : Clause} {premises : Option (Nat × Nat)} (hc : steps[i]? = some c) (hj : Justifies steps j c' premises)
    (hmem : c.index ∈ c'.parents) : ∃ a b, premises = some (a, b) ∧ (i = a ∨ i = b) := by
  cases premises with
  | none =>
    rw [hj.eq_none_iff.1 rfl] at hmem
    cases hmem
  | some pair =>
    obtain ⟨a, b⟩ := pair
    obtain ⟨-, -, p, q, hp, hq, hpq, -⟩ := hj
    rw [hpq] at hmem
    refine ⟨a, b, rfl, ?_⟩
    rcases List.mem_cons.1 hmem with hindex | hmem
    · exact .inl (hs.eq_of_index_eq h hc hp hindex)
    · exact .inr (hs.eq_of_index_eq h hc hq (List.mem_singleton.1 hmem))

/-- **What is collected from the empty clause is a refutation.** -/
theorem Collects.exists_refutes {K : List LiteralSet} {goal : LiteralSet} (hs : Collects d k steps)
    (h : Recorded base first d.toList n) (hb : Founded base first) (hk : d.toList[k]? = some c₀)
    (hempty : c₀.literals = .empty)
    (hK : ∀ c ∈ base, c.literals ∈ K ∨ ∃ l ∈ goal, c.literals = .singleton l.complement) :
    ∃ premises m, Refutes K goal d steps premises m := by
  obtain ⟨premises, hjustified⟩ := hs.exists_premises h hb
  refine ⟨premises, steps.findIdx Clause.hasParents, ?_, hs.increasing, fun c hc => ?_,
    fun i c hc => hs.empty_iff h hb hk hempty hc, hjustified, fun i hi => ?_, fun i c hc hnone => ?_,
    fun i hi => ?_⟩
  · -- the empty clause itself is derived
    have hderived : c₀.parents ≠ [] := by
      rcases h.asserted_or_derived hk with hbase | ⟨-, -, -, a, b, p, q, -, -, hab, -⟩
      · exact absurd hempty (hb.nonempty c₀ (List.mem_of_getElem? hbase))
      · simp [hab]
    refine List.findIdx_lt_length_of_exists ⟨c₀, (hs.mem_iff c₀).2 ⟨k, .refl, hk⟩, ?_⟩
    simpa [Clause.hasParents] using hderived
  · obtain ⟨x, -, hx⟩ := (hs.mem_iff c).1 hc
    rw [Derivation.get_eq_ok_iff, h.index_eq hx, Derivation.get?_natCast, hx]
  · have hc := List.getElem?_eq_getElem hi
    rw [(hjustified i _ hc).eq_none_iff, hs.lt_findIdx_iff h hb hc]
  · exact hK c (hs.mem_base h hc ((hjustified i c hc).eq_none_iff.1 hnone))
  · have hc := List.getElem?_eq_getElem (l := steps) (i := i) (by omega)
    obtain ⟨j, c', hij, hc', hmem⟩ := hs.used h hb hk hc fun heq => by
      have := (hs.empty_iff h hb hk hempty hc).1 (heq ▸ hempty)
      omega
    obtain ⟨a, b, hpair, hi⟩ := hs.eq_premise h hc (hjustified j c' hc') hmem
    exact ⟨j, a, b, hij, lt_of_getElem? hc', hpair, hi⟩

end Steps

/-! ## The trace -/

/-- The line that shows the `j`-th step, with the numbers of its premises. -/
def shownLine (j : Nat) (c : Clause) (premises : Option (Nat × Nat)) : String :=
  toString (j + 1) ++ ". " ++ c.name ++ match premises with
    | none => ""
    | some (a, b) => " (" ++ toString (a + 1) ++ ", " ++ toString (b + 1) ++ ")"

/-- The lines that show the steps, numbered from 1. -/
def shownLines (steps : List Clause) (premises : Nat → Option (Nat × Nat)) : List String :=
  steps.mapIdx fun j c => shownLine j c (premises j)

namespace Refutes

variable {K : List LiteralSet} {goal : LiteralSet} {d : Derivation} {steps : List Clause}
  {premises : Nat → Option (Nat × Nat)} {m : Nat}

theorem eq_of_index_eq (h : Refutes K goal d steps premises m) {i j : Nat} {c c' : Clause}
    (hc : steps[i]? = some c) (hc' : steps[j]? = some c') (hindex : c.index = c'.index) : i = j := by
  have hget := h.registered c (List.mem_of_getElem? hc)
  rw [hindex, h.registered c' (List.mem_of_getElem? hc')] at hget
  obtain rfl : c' = c := Except.ok.inj hget
  exact eq_of_increasing h.increasing hc hc'

theorem stepNumber_eq (h : Refutes K goal d steps premises m) {i : Nat} {c : Clause}
    (hc : steps[i]? = some c) : Outcome.stepNumber steps c.index = .ok (i + 1) := by
  have hmem : (c, i) ∈ steps.zipIdx.reverse :=
    List.mem_reverse.2 (List.mk_mem_zipIdx_iff_getElem?.2 hc)
  unfold Outcome.stepNumber
  cases hfind : steps.zipIdx.reverse.find? (·.1.index = c.index) with
  | none =>
    have := List.find?_eq_none.1 hfind _ hmem
    simp at this
  | some found =>
    obtain ⟨c', j⟩ := found
    have hc' := List.mk_mem_zipIdx_iff_getElem?.1 (List.mem_reverse.1 (List.mem_of_find?_eq_some hfind))
    have hindex : c'.index = c.index := by simpa using List.find?_some hfind
    rw [h.eq_of_index_eq hc' hc hindex]

/-- **A step is shown with its number and those of its premises.** -/
theorem stepLine_eq (h : Refutes K goal d steps premises m) {j : Nat} {c : Clause}
    (hc : steps[j]? = some c) : Outcome.stepLine steps c = .ok (shownLine j c (premises j)) := by
  have hj := h.justified j c hc
  have hnumber := h.stepNumber_eq hc
  unfold Outcome.stepLine
  cases hpair : premises j with
  | none =>
    rw [hpair] at hj
    have hparents : c.parents = [] := hj
    rw [hparents, hnumber, shownLine, String.append_empty]
    rfl
  | some pair =>
    obtain ⟨a, b⟩ := pair
    rw [hpair] at hj
    obtain ⟨-, -, p, q, hp, hq, hpq, -⟩ := hj
    have hmap : c.parents.mapM (Outcome.stepNumber steps) = .ok [a + 1, b + 1] := by
      rw [hpq]
      exact mapM_eq_ok_iff.2 (.cons (h.stepNumber_eq hp) (.cons (h.stepNumber_eq hq) .nil))
    rw [hmap, hnumber, shownLine]
    show Except.ok (toString (j + 1) ++ ". " ++ c.name ++ " (" ++ toString (a + 1) ++ ", " ++
      toString (b + 1) ++ ")") = _
    simp only [String.append_assoc]

theorem mapM_stepLine (h : Refutes K goal d steps premises m) :
    List.Forall₂ (fun c line => Outcome.stepLine steps c = .ok line) steps (shownLines steps premises) := by
  refine List.forall₂_iff_get.2 ⟨by simp [shownLines], fun j hj _ => ?_⟩
  rw [List.get_eq_getElem, List.get_eq_getElem, h.stepLine_eq (List.getElem?_eq_getElem hj)]
  simp [shownLines]

/-- The rule stands between the asserted and the derived steps. -/
theorem stepLines_append {asserted derived : List Clause} {assertedLines derivedLines : List String}
    (ha : List.Forall₂ (fun c line => Outcome.stepLine steps c = .ok line) asserted assertedLines)
    (hd : List.Forall₂ (fun c line => Outcome.stepLine steps c = .ok line) derived derivedLines)
    (hasserted : ∀ c ∈ asserted, c.parents = []) (hderived : ∃ c ∈ derived.head?, c.parents ≠ []) :
    Outcome.stepLines steps (asserted ++ derived) =
      .ok (assertedLines ++ Outcome.rule :: derivedLines) := by
  induction ha with
  | nil =>
    obtain ⟨c, hc, hparents⟩ := hderived
    obtain ⟨rest, rfl⟩ := List.head?_eq_some_iff.1 hc
    rw [List.nil_append, Outcome.stepLines, if_pos (by simpa [Clause.hasParents] using hparents),
      mapM_eq_ok_iff.2 hd]
    rfl
  | @cons c line asserted lines hline _ ih =>
    have hparents : c.parents = [] := hasserted c (by simp)
    rw [List.cons_append, Outcome.stepLines, if_neg (by simp [Clause.hasParents, hparents]), hline,
      ih fun c hc => hasserted c (by simp [hc])]
    rfl

/-- **The trace of a refutation**: the asserted steps, a rule, the derived steps, a rule, the conclusion. -/
theorem trace_eq {o : Outcome} (h : Refutes K goal d steps premises m) (hproof : o.proof = .ok steps) :
    o.trace = .ok ((shownLines steps premises).take m ++ [Outcome.rule] ++
      (shownLines steps premises).drop m ++ [Outcome.rule, o.conclusion]) := by
  have hall := h.mapM_stepLine
  have hlt := h.lt_length
  have hempty : ¬steps.isEmpty = true := by
    rw [List.isEmpty_iff_length_eq_zero]
    omega
  have hasserted : ∀ c ∈ steps.take m, c.parents = [] := by
    intro c hc
    obtain ⟨i, hi⟩ := List.mem_iff_getElem?.1 hc
    rw [List.getElem?_take] at hi
    split at hi
    · rename_i him
      exact (h.justified i c hi).eq_none_iff.1 ((h.asserted_iff i (by omega)).1 him)
    · cases hi
  have hderived : ∃ c ∈ (steps.drop m).head?, c.parents ≠ [] := by
    have hm := List.getElem?_eq_getElem hlt
    refine ⟨steps[m], by simp [List.head?_drop], fun hparents => ?_⟩
    have := (h.asserted_iff m hlt).2 ((h.justified m _ hm).eq_none_iff.2 hparents)
    omega
  have hlines := stepLines_append (List.forall₂_take m hall) (List.forall₂_drop m hall) hasserted hderived
  rw [List.take_append_drop] at hlines
  unfold Outcome.trace
  rw [hproof]
  simp only [bind, Except.bind, if_neg hempty, hlines]
  simp [pure, Except.pure]

end Refutes

theorem Outcome.proof_of_not_proven {o : Outcome} (h : ∀ i, o.verdict ≠ .proven i) : o.proof = .ok [] := by
  unfold Outcome.proof
  split
  · rename_i i hi
    exact absurd hi (h i)
  · rfl

/-! ## Runs -/

namespace Engine

variable {e e' : Engine} {goal : Clause}

theorem literals_start (h : e.Filed) (ht : e.Tidy) (hgoal : e.goal = some goal) {c : Clause}
    (hc : c ∈ e.start.2.derivation.toList) :
    c.literals ∈ e.knowledge.keys ∨ ∃ l ∈ goal.literals, c.literals = .singleton l.complement := by
  have ho := opens_start h
  rw [ho.toList] at hc
  rcases List.mem_append.1 hc with hc | hc
  · left
    rw [← ho.keys]
    exact List.mem_map_of_mem hc
  · right
    rcases ht.support with ⟨hnone, -⟩ | ⟨goal', hgoal', hkeys⟩
    · rw [hgoal] at hnone
      cases hnone
    · obtain rfl : goal = goal' := Option.some.inj (hgoal.symm.trans hgoal')
      have hmem : c.literals ∈ e.support.keys := ho.supportKeys ▸ List.mem_map_of_mem hc
      rw [hkeys] at hmem
      obtain ⟨l, hl, heq⟩ := List.mem_map.1 hmem
      exact ⟨l, LiteralSet.mem_toList.1 hl, heq.symm⟩

theorem founded_start (h : e.Filed) (ht : e.Tidy) (hgoal : e.goal = some goal) :
    Founded e.start.2.derivation.toList e.counter := by
  have ho := opens_start h
  have hids : e.start.2.derivation.toList.map Clause.id = e.knowledge.ids ++ e.support.ids := by
    rw [ho.toList, List.map_append, ho.ids, ← ho.supportIds]
    rfl
  refine ⟨ho.parents, fun c hc => ?_, hids ▸ ht.distinct, fun c hc hempty => ?_⟩
  · exact ht.below c.id (hids ▸ List.mem_map_of_mem hc)
  · rcases literals_start h ht hgoal hc with hmem | ⟨l, -, heq⟩
    · rw [hempty, ClauseTable.mem_keys] at hmem
      exact ht.irredundant.nonempty hmem
    · rw [hempty] at heq
      exact LiteralSet.singleton_ne_empty _ heq.symm

section Pursue

variable {limit : Option Int} {r : Run} (h : e.Filed) (ht : e.Tidy) (hgoal : e.goal = some goal)
  (hrun : e.pursue goal limit = (r, e'))

include h ht hgoal hrun

/-- A run that proves its goal has a refutation on its record. -/
theorem exists_refutes {i : Int} (hproven : r.verdict = .proven i) :
    ∃ (n : Int) (k : Nat) (steps : List Clause) (premises : Nat → Option (Nat × Nat)) (m : Nat),
      Recorded e.start.2.derivation.toList e.counter (e'.outcome r).derivation.toList n ∧ i = k ∧
      (e'.outcome r).proof = .ok steps ∧ Collects (e'.outcome r).derivation k steps ∧
      Refutes e.knowledge.keys goal.literals (e'.outcome r).derivation steps premises m := by
  obtain ⟨n, hrecorded, c₀, hmem, hindex, hempty⟩ := recorded_run h hrun hproven
  have hfounded := founded_start h ht hgoal
  obtain ⟨k, hk, hk'⟩ := hrecorded.exists_index hmem
  have hi : i = k := hindex.symm.trans hk'
  have hverdict : (e'.outcome r).verdict = .proven k := hi ▸ hproven
  obtain ⟨steps, hproof, hcollects⟩ := collects_proof hrecorded hfounded hk hverdict
  obtain ⟨premises, m, hrefutes⟩ := hcollects.exists_refutes hrecorded hfounded hk hempty
    fun c hc => literals_start h ht hgoal hc
  exact ⟨n, k, steps, premises, m, hrecorded, hi, hproof, hcollects, hrefutes⟩

/-- **A trace can be made of every run.** -/
theorem exists_trace : ∃ lines, (e'.outcome r).trace = .ok lines := by
  cases hv : r.verdict with
  | proven i =>
    obtain ⟨-, -, steps, premises, m, -, -, hproof, -, hrefutes⟩ := exists_refutes h ht hgoal hrun hv
    exact ⟨_, hrefutes.trace_eq hproof⟩
  | unknown reason | undecided =>
    refine ⟨[(e'.outcome r).conclusion], ?_⟩
    have hproof : (e'.outcome r).proof = .ok [] := Outcome.proof_of_not_proven (by simp [outcome, hv])
    unfold Outcome.trace
    rw [hproof]
    rfl

end Pursue

/-- **Every proof that is found is a resolution refutation, and is shown as one.** -/
theorem refutes_of_proven {limit : Option Int} {r : Run} {i : Int} (h : e.Attained)
    (hgoal : e.goal = some goal) (hrun : e.run limit = .ok (r, e')) (hproven : r.verdict = .proven i) :
    ∃ steps premises m, (e'.outcome r).proof = .ok steps ∧
      Refutes e.knowledge.keys goal.literals (e'.outcome r).derivation steps premises m ∧
      (e'.outcome r).trace = .ok ((shownLines steps premises).take m ++ [Outcome.rule] ++
        (shownLines steps premises).drop m ++
        [Outcome.rule, "[CONCLUSION]: " ++ goal.name ++ " is true"]) := by
  obtain ⟨hr, -⟩ := h.tidy.settled.run hrun
  obtain rfl : goal = r.goal := Option.some.inj (hgoal.symm.trans hr)
  rw [run_eq hgoal] at hrun
  have hpursue : e.pursue r.goal limit = (r, e') := Except.ok.inj hrun
  obtain ⟨n, hrecorded, c₀, hmem, hindex, hempty⟩ := recorded_run h.filed hpursue hproven
  have hfounded := founded_start h.filed h.tidy hgoal
  obtain ⟨k, hk, hk'⟩ := hrecorded.exists_index hmem
  have hverdict : (e'.outcome r).verdict = .proven k := by
    rw [← hk', hindex]
    exact hproven
  obtain ⟨steps, hproof, hcollects⟩ := collects_proof hrecorded hfounded hk hverdict
  obtain ⟨premises, m, hrefutes⟩ := hcollects.exists_refutes hrecorded hfounded hk hempty
    fun c hc => literals_start h.filed h.tidy hgoal hc
  have hconclusion : (e'.outcome r).conclusion = "[CONCLUSION]: " ++ r.goal.name ++ " is true" := by
    have htrue : (e'.outcome r).proven = true := by
      rw [Outcome.proven, hverdict]
    show "[CONCLUSION]: " ++ r.goal.name ++ " is " ++
      (if (e'.outcome r).proven then "true" else "unknown") = _
    rw [htrue, if_pos rfl, String.append_assoc]
    rfl
  exact ⟨steps, premises, m, hproof, hrefutes, hconclusion ▸ hrefutes.trace_eq hproof⟩

theorem refutes_of_proven_disjunction :
    let goal : Clause := { literals := .singleton ⟨"q", false⟩ }
    let e := ((({} : Engine).add "p v q").2.add "~p").2.aim goal
    e.Attained ∧ e.goal = some goal ∧ ∃ r e', e.run none = .ok (r, e') ∧ r.verdict = .proven 4 ∧
      ∃ steps premises m, (e'.outcome r).proof = .ok steps ∧
        Refutes e.knowledge.keys goal.literals (e'.outcome r).derivation steps premises m := by
  intro goal e
  have h : e.Attained := ⟨[.add "p v q", .add "~p", .goal "q"], rfl⟩
  have hgoal : e.goal = some goal := rfl
  have hproven : (e.pursue goal none).1.verdict = .proven 4 := by decide +kernel
  have hrun := run_eq hgoal none
  clear_value e
  generalize e.pursue goal none = result at hproven hrun
  obtain ⟨r, e'⟩ := result
  obtain ⟨steps, premises, m, hproof, hrefutes, -⟩ := refutes_of_proven h hgoal hrun hproven
  exact ⟨h, hgoal, r, e', hrun, hproven, steps, premises, m, hproof, hrefutes⟩

end Engine

end Clausal
