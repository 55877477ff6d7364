import Clausal.Proofs.Likeness

/-!
# Proofs that are told alike

The steps of a proof stand in the order of their numbers.  Where the numbers of alike derivations are in the same order
(`Derivation.Precedes`), the proofs have alike steps (`alike_steps`), and their traces are the same.

So it is if the numbers follow the positions (`Derivation.Listed`), as in every run for a goal that was set last: the
clauses of the knowledge base have the smaller numbers, then comes the negation of the goal, then what is derived
(`Engine.agrees_pursue`).  And so it is if the derivations go on from the same clauses (`Recorded.precedes`).
-/

namespace Clausal

/-! ## Steps -/

namespace Derivation

variable {d d' : Derivation}

/-- The clauses stand where they say. -/
def Indexed (d : Derivation) : Prop := ∀ (i : Nat) (c : Clause), d.toList[i]? = some c → c.index = i

/-- The clause at the first position has a smaller number than the one at the second. -/
def Precedes (d : Derivation) (x y : Int) : Prop :=
  ∃ (a b : Nat) (c c' : Clause), x = a ∧ y = b ∧ d.toList[a]? = some c ∧ d.toList[b]? = some c' ∧ c.id < c'.id

theorem Precedes.asymm {x y : Int} (h : d.Precedes x y) : ¬d.Precedes y x := by
  rintro ⟨a, b, c, c', rfl, rfl, hc, hc', hlt⟩
  obtain ⟨b', a', p', p, hb, ha, hp', hp, hlt'⟩ := h
  obtain rfl : b = b' := by omega
  obtain rfl : a = a' := by omega
  rw [hc] at hp
  rw [hc'] at hp'
  cases hp
  cases hp'
  omega

/-- The clauses stand where they say, and their numbers increase. -/
structure Listed (d : Derivation) : Prop where
  index : d.Indexed
  increasing : d.toList.Pairwise (·.id < ·.id)

theorem get?_alike (h : List.Forall₂ Clause.Alike d.toList d'.toList) (i : Int) :
    (d.get? i = none ∧ d'.get? i = none) ∨ ∃ c c', d.get? i = some c ∧ d'.get? i = some c' ∧ c.Alike c' := by
  have hsize : d.size = d'.size := by rw [size_eq, size_eq, h.length_eq]
  have hget : ∀ (d : Derivation) (i : Int), d.get? i = (position? d.size i).bind (d.toList[·]?) := by
    intro d i
    simp [get?, toList]
  rw [hget, hget, hsize]
  cases position? d'.size i with
  | none => exact .inl ⟨rfl, rfl⟩
  | some n => exact getElem?_rel h n

theorem leads_of_alike (h : List.Forall₂ Clause.Alike d.toList d'.toList) {i j : Int} (hl : d.Leads i j) :
    d'.Leads i j := by
  refine hl.lift id fun x y hxy => ?_
  obtain ⟨c, hc, hy⟩ := hxy
  rcases get?_alike h x with ⟨hn, -⟩ | ⟨b, b', hb, hb', halike⟩
  · rw [hc] at hn
    cases hn
  · obtain rfl : c = b := Option.some.inj (hc.symm.trans hb)
    exact ⟨b', hb', halike.parents ▸ hy⟩

end Derivation

section Steps

variable {d d' : Derivation} {k : Nat} {steps steps' : List Clause}

/-- The positions of the steps are in the order of their numbers. -/
theorem Collects.pairwise_index (hs : Collects d k steps) (h : d.Indexed) :
    (steps.map Clause.index).Pairwise d.Precedes := by
  refine List.pairwise_map.2 (hs.increasing.imp_of_mem fun hc hc' hid => ?_)
  obtain ⟨a, -, ha⟩ := (hs.mem_iff _).1 hc
  obtain ⟨b, -, hb⟩ := (hs.mem_iff _).1 hc'
  exact ⟨a, b, _, _, h a _ ha, h b _ hb, ha, hb, hid⟩

theorem Collects.mem_index (hs : Collects d k steps) (h : d.Indexed) {x : Int} :
    x ∈ steps.map Clause.index ↔ ∃ a : Nat, x = a ∧ d.Leads k a ∧ a < d.toList.length := by
  rw [List.mem_map]
  constructor
  · rintro ⟨c, hc, rfl⟩
    obtain ⟨a, hleads, ha⟩ := (hs.mem_iff c).1 hc
    exact ⟨a, h a c ha, hleads, lt_of_getElem? ha⟩
  · rintro ⟨a, rfl, hleads, hlt⟩
    have ha := List.getElem?_eq_getElem hlt
    exact ⟨_, (hs.mem_iff _).2 ⟨a, hleads, ha⟩, h a _ ha⟩

/-- **Alike derivations have alike proofs** if their numbers are in the same order. -/
theorem alike_steps (h : d.Indexed) (h' : d'.Indexed) (halike : List.Forall₂ Clause.Alike d.toList d'.toList)
    (horder : ∀ {x y}, d.Precedes x y → d'.Precedes x y) (hs : Collects d k steps) (hs' : Collects d' k steps') :
    List.Forall₂ Clause.Alike steps steps' := by
  have hinc : (steps.map Clause.index).Pairwise d'.Precedes := (hs.pairwise_index h).imp horder
  have hinc' := hs'.pairwise_index h'
  have hnodup : ∀ {xs : List Int}, xs.Pairwise d'.Precedes → xs.Nodup := by
    refine fun hxs => hxs.imp fun {x y} hxy heq => ?_
    subst heq
    exact hxy.asymm hxy
  have hflip : List.Forall₂ Clause.Alike d'.toList d.toList :=
    halike.flip.imp fun c c' hc => ⟨hc.literals.symm, hc.parents.symm, hc.position.symm⟩
  -- both lists of positions are in the order of the numbers and have the same members
  have hindex : steps.map Clause.index = steps'.map Clause.index := by
    refine List.Perm.eq_of_pairwise (fun a b _ _ hab hba => absurd hab hba.asymm) hinc hinc' ?_
    refine (List.perm_ext_iff_of_nodup (hnodup hinc) (hnodup hinc')).2 fun x => ?_
    rw [hs.mem_index h, hs'.mem_index h', halike.length_eq]
    refine exists_congr fun a => and_congr_right fun _ => and_congr_left fun _ => ?_
    exact ⟨Derivation.leads_of_alike halike, Derivation.leads_of_alike hflip⟩
  refine List.forall₂_iff_get.2 ⟨by simpa using congrArg List.length hindex, fun i hi hi' => ?_⟩
  obtain ⟨a, -, ha⟩ := hs.exists_position (List.getElem?_eq_getElem hi)
  obtain ⟨b, -, hb⟩ := hs'.exists_position (List.getElem?_eq_getElem hi')
  have hab : a = b := by
    have hget := congrArg (·[i]?) hindex
    simp only [List.getElem?_map, List.getElem?_eq_getElem hi, List.getElem?_eq_getElem hi',
      Option.map_some, Option.some.injEq] at hget
    rw [h a _ ha, h' b _ hb] at hget
    omega
  subst hab
  rcases getElem?_rel halike a with ⟨hn, -⟩ | ⟨c, c', hc, hc', hcc⟩
  · rw [ha] at hn
    cases hn
  · rw [ha] at hc
    rw [hb] at hc'
    cases hc
    cases hc'
    exact hcc

end Steps

/-! ## Traces -/

section Trace

variable {steps steps' cs cs' : List Clause} {c c' : Clause}

theorem stepNumber_alike (h : List.Forall₂ Clause.Alike steps steps') (i : Int) :
    Outcome.stepNumber steps i = Outcome.stepNumber steps' i := by
  have hzip : ∀ n, List.Forall₂ (fun x y => x.1.Alike y.1 ∧ x.2 = y.2) (steps.zipIdx n) (steps'.zipIdx n) := by
    intro n
    induction h generalizing n with
    | nil => exact .nil
    | cons hc _ ih => exact .cons ⟨hc, rfl⟩ (ih (n + 1))
  unfold Outcome.stepNumber
  rcases find?_rel (List.rel_reverse (hzip 0)) (p := (·.1.index = i)) (q := (·.1.index = i))
      (fun x y hxy => by rw [hxy.1.index]) with ⟨hn, hn'⟩ | ⟨x, y, hx, hy, hxy⟩
  · rw [hn, hn']
  · rw [hx, hy]
    simp [hxy.2]

theorem mapM_congr_of_rel {α β γ ε : Type} {R : α → β → Prop} {as : List α} {bs : List β}
    {f : α → Except ε γ} {g : β → Except ε γ} (h : List.Forall₂ R as bs) (hfg : ∀ a b, R a b → f a = g b) :
    as.mapM f = bs.mapM g := by
  induction h with
  | nil => rfl
  | cons hab _ ih => rw [List.mapM_cons, List.mapM_cons, hfg _ _ hab, ih]

theorem stepLine_alike (h : List.Forall₂ Clause.Alike steps steps') (hc : c.Alike c') :
    Outcome.stepLine steps c = Outcome.stepLine steps' c' := by
  have hnumber : Outcome.stepNumber steps = Outcome.stepNumber steps' := funext (stepNumber_alike h)
  unfold Outcome.stepLine
  rw [hnumber, hc.parents, hc.index, hc.literals]

theorem stepLines_alike (h : List.Forall₂ Clause.Alike steps steps') (hcs : List.Forall₂ Clause.Alike cs cs') :
    Outcome.stepLines steps cs = Outcome.stepLines steps' cs' := by
  induction hcs with
  | nil => rfl
  | cons hc hrest ih =>
    have hlines := mapM_congr_of_rel (List.Forall₂.cons hc hrest) fun a b hab => stepLine_alike h hab
    rw [Outcome.stepLines, Outcome.stepLines, hlines, stepLine_alike h hc, ih, Clause.hasParents,
      Clause.hasParents, hc.parents]

theorem trace_alike {o o' : Outcome} (hgoal : o.goal = o'.goal) (hverdict : o.verdict = o'.verdict)
    (hproof : o.proof = .ok steps) (hproof' : o'.proof = .ok steps')
    (h : List.Forall₂ Clause.Alike steps steps') : o.trace = o'.trace := by
  have hconclusion : o.conclusion = o'.conclusion := by
    unfold Outcome.conclusion Outcome.proven
    rw [hgoal, hverdict]
  have hempty : steps.isEmpty = steps'.isEmpty := by
    rw [Bool.eq_iff_iff, List.isEmpty_iff_length_eq_zero, List.isEmpty_iff_length_eq_zero, h.length_eq]
  unfold Outcome.trace
  rw [hproof, hproof', hconclusion]
  simp only [bind, Except.bind, hempty, stepLines_alike h h]

end Trace

/-! ## Runs -/

/-- The outcomes are the same to those who see them: they name the same goal, their rounds brought the same, they are of
one kind, and their proofs are shown in the same lines. -/
structure Outcome.Agrees (o o' : Outcome) : Prop where
  goal : o.goal = o'.goal
  history : o.history = o'.history
  verdict : o.verdict = o'.verdict
  trace : o.trace = o'.trace

section Recorded

variable {base : List Clause} {first n n' : Int} {d d' : Derivation}

theorem Recorded.indexed (h : Recorded base first d.toList n) : d.Indexed := fun _ _ hc => h.index_eq hc

theorem Recorded.listed (h : Recorded base first d.toList n) (hb : Founded base first)
    (hinc : base.Pairwise (·.id < ·.id)) : d.Listed := by
  refine ⟨h.indexed, List.pairwise_iff_getElem.2 fun i j hi hj hij => ?_⟩
  have hci := List.getElem?_eq_getElem hi
  have hcj := List.getElem?_eq_getElem hj
  by_cases hlen : base.length ≤ j
  · exact h.id_lt hb.below hci hcj hij hlen
  · have hbi := (h.asserted_or_derived hci).resolve_right fun hd => by omega
    have hbj := (h.asserted_or_derived hcj).resolve_right fun hd => hlen hd.1
    obtain ⟨hi', hgi⟩ := List.getElem?_eq_some_iff.1 hbi
    obtain ⟨hj', hgj⟩ := List.getElem?_eq_some_iff.1 hbj
    rw [← hgi, ← hgj]
    exact List.pairwise_iff_getElem.1 hinc i j hi' hj' hij

theorem Derivation.Listed.precedes (h : d.Listed) (h' : d'.Listed) (hlength : d.toList.length = d'.toList.length)
    {x y : Int} (hxy : d.Precedes x y) : d'.Precedes x y := by
  obtain ⟨a, b, c, c', rfl, rfl, hc, hc', hlt⟩ := hxy
  have hab := lt_of_increasing h.increasing hc hc' hlt
  have ha : a < d'.toList.length := hlength ▸ lt_of_getElem? hc
  have hb : b < d'.toList.length := hlength ▸ lt_of_getElem? hc'
  exact ⟨a, b, _, _, rfl, rfl, List.getElem?_eq_getElem ha, List.getElem?_eq_getElem hb,
    List.pairwise_iff_getElem.1 h'.increasing a b ha hb hab⟩

/-- Records that begin with the same clauses have the numbers in the same order. -/
theorem Recorded.precedes (h : Recorded base first d.toList n) (h' : Recorded base first d'.toList n')
    (hbelow : ∀ c ∈ base, c.id < first) (hlength : d.toList.length = d'.toList.length) {x y : Int}
    (hxy : d.Precedes x y) : d'.Precedes x y := by
  obtain ⟨a, b, c, c', rfl, rfl, hc, hc', hlt⟩ := hxy
  have ha := List.getElem?_eq_getElem (hlength ▸ lt_of_getElem? hc)
  have hb := List.getElem?_eq_getElem (hlength ▸ lt_of_getElem? hc')
  refine ⟨a, b, _, _, rfl, rfl, ha, hb, ?_⟩
  by_cases hbase : a < base.length ∧ b < base.length
  · -- at the beginning both records have the same clauses
    have hsame : ∀ {i : Nat} {p p' : Clause}, i < base.length → d.toList[i]? = some p → d'.toList[i]? = some p' →
        p = p' := by
      intro i p p' hi hp hp'
      have hp := (h.asserted_or_derived hp).resolve_right fun hd => by omega
      have hp' := (h'.asserted_or_derived hp').resolve_right fun hd => by omega
      exact Option.some.inj (hp.symm.trans hp')
    rwa [← hsame hbase.1 hc ha, ← hsame hbase.2 hc' hb]
  -- what is derived has a greater number than all that came before it
  rcases Nat.lt_trichotomy a b with hab | rfl | hab
  · exact h'.id_lt hbelow ha hb hab (by omega)
  · obtain rfl : c = c' := Option.some.inj (hc.symm.trans hc')
    omega
  · have := h.id_lt hbelow hc' hc hab (by omega)
    omega

/-- **Alike records that begin with the same clauses are shown in the same lines.** -/
theorem trace_of_recorded {o o' : Outcome} (hgoal : o.goal = o'.goal)
    (hverdict : o.verdict = o'.verdict) (hb : Founded base first) (h : Recorded base first o.derivation.toList n)
    (h' : Recorded base first o'.derivation.toList n')
    (halike : List.Forall₂ Clause.Alike o.derivation.toList o'.derivation.toList)
    (hfound : ∀ i, o.verdict = .proven i → ∃ c ∈ o.derivation.toList, c.index = i) : o.trace = o'.trace := by
  cases hv : o.verdict with
  | proven i =>
    obtain ⟨c, hc, rfl⟩ := hfound i hv
    obtain ⟨k, hk, hindex⟩ := h.exists_index hc
    rw [hindex] at hv
    have hk' := List.getElem?_eq_getElem (halike.length_eq ▸ lt_of_getElem? hk)
    obtain ⟨steps, hproof, hcollects⟩ := collects_proof h hb hk hv
    obtain ⟨steps', hproof', hcollects'⟩ := collects_proof h' hb hk' (hverdict ▸ hv)
    have horder : ∀ {x y}, o.derivation.Precedes x y → o'.derivation.Precedes x y :=
      h.precedes h' hb.below halike.length_eq
    exact trace_alike hgoal hverdict hproof hproof'
      (alike_steps h.indexed h'.indexed halike horder hcollects hcollects')
  | unknown reason | undecided =>
    have hproof : ∀ o : Outcome, (∀ i, o.verdict ≠ .proven i) → o.proof = .ok [] :=
      fun o ho => Outcome.proof_of_not_proven ho
    exact trace_alike hgoal hverdict (hproof o (by simp [hv])) (hproof o' (by simp [← hverdict, hv])) .nil

end Recorded

namespace Engine

variable {e e' : Engine} {goal : Clause} {limit : Option Int} {r r' : Run} {e₁ e₁' : Engine}

/-- A goal that was set last has greater numbers than the knowledge base. -/
theorem increasing_start_aim (h : e.Filed) (ht : e.Tidy) (goal : Clause) :
    (e.aim goal).start.2.derivation.toList.Pairwise (·.id < ·.id) := by
  have ho := opens_start (h.toArchived.aim goal)
  have hids : (e.aim goal).support.ids = numbersFrom e.counter goal.literals.toList.length := by
    unfold ClauseTable.ids
    rw [toList_support_aim, ids_negationUnits]
  have hsupport : (e.aim goal).start.2.support.toList.map Clause.id = (e.aim goal).support.ids := ho.supportIds
  rw [← List.pairwise_map (f := Clause.id), ho.toList, List.map_append, ho.ids, hsupport, hids]
  refine List.pairwise_append.2 ⟨ht.increasing, pairwise_numbersFrom _ _, fun m hm n hn => ?_⟩
  have hm := ht.below m (List.mem_append_left _ hm)
  have hn := (mem_numbersFrom.1 hn).1
  omega

/-- What is known of the proof that a query finds. -/
theorem collects_query (h : e.Filed) (ht : e.Tidy) (hrun : (e.aim goal).pursue goal limit = (r, e₁)) {i : Int}
    (hproven : r.verdict = .proven i) : (e₁.outcome r).derivation.Listed ∧
      ∃ (k : Nat) (steps : List Clause), i = k ∧ (e₁.outcome r).proof = .ok steps ∧
        Collects (e₁.outcome r).derivation k steps := by
  have hfiled := h.toArchived.aim goal
  have hgoal : (e.aim goal).goal = some goal := rfl
  obtain ⟨n, k, steps, -, -, hrecorded, hi, hproof, hcollects, -⟩ :=
    exists_refutes hfiled (ht.aim goal) hgoal hrun hproven
  have hfounded := founded_start hfiled (ht.aim goal) hgoal
  exact ⟨hrecorded.listed hfounded (increasing_start_aim h ht goal), k, steps, hi, hproof, hcollects⟩

/-- **Runs from knowledge bases with the same sets in the same order agree**, whatever the numbers of the clauses. -/
theorem agrees_pursue (h : e.Filed) (h' : e'.Filed) (ht : e.Tidy) (ht' : e'.Tidy)
    (hkeys : e.knowledge.keys = e'.knowledge.keys) (hrun : (e.aim goal).pursue goal limit = (r, e₁))
    (hrun' : (e'.aim goal).pursue goal limit = (r', e₁')) : (e₁.outcome r).Agrees (e₁'.outcome r') := by
  have hsupport : (e.aim goal).support.keys = (e'.aim goal).support.keys := by
    unfold ClauseTable.keys
    rw [toList_support_aim, toList_support_aim, literals_negationUnits, literals_negationUnits]
  obtain ⟨hverdict, hhistory, halike⟩ :=
    alike_pursue (h.toArchived.aim goal) (h'.toArchived.aim goal) hkeys hsupport hrun hrun'
  have hgoal : (e₁.outcome r).goal = (e₁'.outcome r').goal := by
    obtain ⟨_, _, _, -, heq⟩ := exists_pursue (e.aim goal) goal limit
    obtain ⟨_, _, _, -, heq'⟩ := exists_pursue (e'.aim goal) goal limit
    obtain ⟨rfl, -⟩ := Prod.ext_iff.1 (hrun.symm.trans heq)
    obtain ⟨rfl, -⟩ := Prod.ext_iff.1 (hrun'.symm.trans heq')
    rfl
  refine ⟨hgoal, hhistory, hverdict, ?_⟩
  cases hv : r.verdict with
  | proven i =>
    obtain ⟨hlisted, k, steps, rfl, hproof, hcollects⟩ := collects_query h ht hrun hv
    obtain ⟨hlisted', k', steps', hk, hproof', hcollects'⟩ := collects_query h' ht' hrun' (hverdict ▸ hv)
    obtain rfl : k = k' := Int.ofNat.inj hk
    have horder : ∀ {x y}, (e₁.outcome r).derivation.Precedes x y → (e₁'.outcome r').derivation.Precedes x y :=
      hlisted.precedes hlisted' halike.length_eq
    exact trace_alike hgoal hverdict hproof hproof'
      (alike_steps hlisted.index hlisted'.index halike horder hcollects hcollects')
  | unknown reason | undecided =>
    have hproof : ∀ o : Outcome, o.verdict = r.verdict → o.proof = .ok [] :=
      fun o ho => Outcome.proof_of_not_proven (by simp [ho, hv])
    exact trace_alike hgoal hverdict (hproof _ rfl) (hproof _ hverdict.symm) .nil

end Engine

end Clausal
