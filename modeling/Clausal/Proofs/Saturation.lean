import Clausal.Proofs.Subsumption
import Clausal.Proofs.Truth

/-!
# Saturation with a set of support

A round, told of collections of literal sets: the working set `W` is resolved with the support `S`.

* `resolvents W S`: the resolvents that are no tautologies;
* `saturate W S`: the working set after the round, which is the minimal sets of `W ∪ resolvents W S`;
* `produced W S`: what is new in it, and the support of the next round;
* `Supported K U`: what can be derived from the units `U` with the help of the knowledge `K`, where no
  resolvent may be a tautology or covered by `K`;
* `Stage K U P W S`: what holds between two rounds.  It holds at the beginning (`Stage.initial`) and a
  round keeps it (`Stage.next`).

At a stage where nothing new is produced the empty set is not supported (`Stage.not_supported_empty`),
and a round that finds the empty set shows that it is (`Stage.supported_empty`).  So the search finds the
empty set exactly if it is supported, in whatever order the rounds derive, drop and replace clauses.
-/

namespace Clausal

/-! ## One round -/

/-- The resolvents of a set of `W` with a set of `S` that are no tautologies. -/
def resolvents (W S : Set LiteralSet) : Set LiteralSet :=
  {r | r.isTautology = false ∧
    ∃ c ∈ W, ∃ s ∈ S, ∃ l, l ∈ c ∧ l.complement ∈ s ∧ r = c.resolvent s l}

/-- The working set after a round. -/
def saturate (W S : Set LiteralSet) : Set LiteralSet := minimals (W ∪ resolvents W S)

/-- What a round brings into the working set. -/
def produced (W S : Set LiteralSet) : Set LiteralSet := saturate W S \ W

section Round

variable {W S W' S' : Set LiteralSet} {r c : LiteralSet}

theorem mem_resolvents : r ∈ resolvents W S ↔ r.isTautology = false ∧
    ∃ c ∈ W, ∃ s ∈ S, ∃ l, l ∈ c ∧ l.complement ∈ s ∧ r = c.resolvent s l := Iff.rfl

theorem resolvents_comm (W S : Set LiteralSet) : resolvents W S = resolvents S W := by
  have hle : ∀ X Y, resolvents X Y ⊆ resolvents Y X := by
    rintro X Y r ⟨ht, c, hc, s, hs, l, hl, hl', rfl⟩
    refine ⟨ht, s, hs, c, hc, l.complement, hl', ?_, LiteralSet.resolvent_comm⟩
    rwa [Literal.complement_complement]
  exact (hle W S).antisymm (hle S W)

@[simp] theorem resolvents_empty_left : resolvents ∅ S = ∅ := by
  ext r
  simp [mem_resolvents]

@[simp] theorem resolvents_empty_right : resolvents W ∅ = ∅ := by
  rw [resolvents_comm, resolvents_empty_left]

theorem covered_saturate (h : Covered W r) : Covered (saturate W S) r :=
  covered_minimals.2 (h.mono Set.subset_union_left)

theorem covered_saturate_of_mem_resolvents (h : r ∈ resolvents W S) : Covered (saturate W S) r :=
  covered_minimals_of_mem (.inr h)

theorem mem_or_mem_produced (h : c ∈ saturate W S) : c ∈ W ∨ c ∈ produced W S := by
  by_cases hc : c ∈ W
  · exact .inl hc
  · exact .inr ⟨h, hc⟩

theorem produced_subset_resolvents : produced W S ⊆ resolvents W S := by
  rintro r ⟨hr, hn⟩
  rcases minimals_subset hr with h | h
  · exact absurd h hn
  · exact h

theorem not_covered_of_mem_produced (h : r ∈ produced W S) : ¬Covered W r := by
  rintro ⟨c, hc, hcr⟩
  have he : r = c := (mem_minimals.1 h.1).2 c (.inl hc) hcr
  exact h.2 (he ▸ hc)

/-- The sets of a collection that another one does not cover. -/
def uncovered (W Q : Set LiteralSet) : Set LiteralSet := {r | r ∈ Q ∧ ¬Covered W r}

theorem uncovered_insert_of_covered {Q : Set LiteralSet} (h : Covered W r) :
    uncovered W (insert r Q) = uncovered W Q := by
  ext s
  simp only [uncovered, Set.mem_ofPred_eq, Set.mem_insert_iff]
  grind

theorem uncovered_insert_of_not_covered {Q : Set LiteralSet} (h : ¬Covered W r) :
    uncovered W (insert r Q) = insert r (uncovered W Q) := by
  ext s
  simp only [uncovered, Set.mem_ofPred_eq, Set.mem_insert_iff]
  grind

/-- What is new is the minimal part of the resolvents that are not covered. -/
theorem produced_eq : produced W S = minimals (uncovered W (resolvents W S)) := by
  ext c
  constructor
  · intro hc
    refine mem_minimals.2 ⟨⟨produced_subset_resolvents hc, not_covered_of_mem_produced hc⟩, ?_⟩
    exact fun d hd => (mem_minimals.1 hc.1).2 d (.inr hd.1)
  · intro hc
    obtain ⟨⟨hcR, hcW⟩, hmin⟩ := mem_minimals.1 hc
    refine ⟨mem_minimals.2 ⟨.inr hcR, fun d hd hdc => ?_⟩, fun h => hcW (covered_of_mem h)⟩
    rcases hd with hd | hd
    · exact absurd ⟨d, hd, hdc⟩ hcW
    · exact hmin d ⟨hd, fun h => hcW (h.of_subset hdc)⟩ hdc

/-- What leaves the working set is what such a resolvent subsumes. -/
theorem sdiff_saturate (hW : IsAntichain (· ⊆ ·) W) :
    W \ saturate W S = {c | c ∈ W ∧ Covered (uncovered W (resolvents W S)) c} := by
  ext c
  refine and_congr_right fun hc => ?_
  constructor
  · intro h
    by_contra hn
    refine h (mem_minimals.2 ⟨.inl hc, fun d hd hdc => ?_⟩)
    rcases hd with hd | hd
    · exact (hW.eq hd hc hdc).symm
    · -- `d` is covered by the working set, hence by `c`
      have hdW : Covered W d := by
        by_contra hdW
        exact hn ⟨d, ⟨hd, hdW⟩, hdc⟩
      obtain ⟨b, hb, hbd⟩ := hdW
      have hbc := hW.eq hb hc (LiteralSet.subset_trans hbd hdc)
      exact LiteralSet.subset_antisymm (hbc ▸ hbd) hdc
  · rintro ⟨r, ⟨hr, hrW⟩, hrc⟩ hs
    have he : c = r := (mem_minimals.1 hs).2 r (.inr hr) hrc
    exact hrW (covered_of_mem (he ▸ hc))

theorem saturate_eq_union : saturate W S = W \ (W \ saturate W S) ∪ produced W S := by
  ext c
  simp only [produced, Set.mem_union, Set.mem_sdiff]
  grind [mem_or_mem_produced]

theorem saturate_eq_self (hW : IsAntichain (· ⊆ ·) W) (h : produced W S = ∅) : saturate W S = W := by
  have hsub : saturate W S ⊆ W := by
    intro c hc
    rcases mem_or_mem_produced hc with hc | hc
    · exact hc
    · exact absurd hc (h ▸ Set.notMem_empty c)
  refine hsub.antisymm fun c hc => ?_
  obtain ⟨d, hd, hdc⟩ := covered_saturate (S := S) (covered_of_mem hc)
  exact hW.eq (hsub hd) hc hdc ▸ hd

end Round

/-! ## Supported sets -/

/-- What can be derived from `U` by resolving what is derived with `K` and with each other.  A resolvent
that is a tautology or covered by `K` is left out. -/
inductive Supported (K U : Set LiteralSet) : LiteralSet → Prop
  | unit {u : LiteralSet} (hu : u ∈ U) : Supported K U u
  | known {c s : LiteralSet} {l : Literal} (hc : c ∈ K) (hs : Supported K U s) (hl : l ∈ c)
      (hl' : l.complement ∈ s) (ht : (c.resolvent s l).isTautology = false)
      (hn : ¬Covered K (c.resolvent s l)) : Supported K U (c.resolvent s l)
  | derived {c s : LiteralSet} {l : Literal} (hc : Supported K U c) (hs : Supported K U s) (hl : l ∈ c)
      (hl' : l.complement ∈ s) (ht : (c.resolvent s l).isTautology = false)
      (hn : ¬Covered K (c.resolvent s l)) : Supported K U (c.resolvent s l)

/-- **Derivations are sound.** -/
theorem Supported.value {K U : Set LiteralSet} {s : LiteralSet} {v : Assignment} (hK : Models v K)
    (hU : Models v U) (hs : Supported K U s) : s.value v = true := by
  induction hs with
  | unit hu => exact hU _ hu
  | known hc _ _ _ _ _ ih => exact LiteralSet.value_resolvent (hK _ hc) ih
  | derived _ _ _ _ _ _ ihc ihs => exact LiteralSet.value_resolvent ihc ihs

/-! ## Between two rounds -/

/-- What holds between two rounds of a search with the knowledge `K` for a refutation of the units `U`.
`P` is the part of the working set `W` that was in the support at some time.  What is left of the
knowledge is in `W`, and the resolvents of all pairs that have met are covered. -/
structure Stage (K U P W S : Set LiteralSet) : Prop extends Irredundant W where
  support : S ⊆ P
  past : P ⊆ W
  known : ∀ c ∈ W, c ∉ P → c ∈ K
  supported : ∀ c ∈ P, Supported K U c
  coversKnown : ∀ c ∈ K, Covered W c
  coversUnits : ∀ u ∈ U, Covered P u
  closed : ∀ r ∈ resolvents (W \ S) (P \ S), Covered W r

/-- The working set at the beginning: the knowledge without what a unit strictly subsumes, and the
units. -/
def initialWorking (K U : Set LiteralSet) : Set LiteralSet :=
  {c | c ∈ K ∧ ∀ u ∈ U, u ⊆ c → c = u} ∪ U

namespace Stage

variable {K U P W S : Set LiteralSet} {r : LiteralSet}

theorem initial {g : LiteralSet} (hK : Irredundant K) :
    Stage K (negation g) (negation g) (initialWorking K (negation g)) (negation g) where
  antichain := by
    rintro c (⟨hc, hcu⟩ | hc) d (⟨hd, hdu⟩ | hd) hne hcd
    · exact hne (hK.antichain.eq hc hd hcd)
    · obtain ⟨l, -, rfl⟩ := hd
      rcases LiteralSet.subset_singleton_iff.1 hcd with rfl | rfl
      · exact hK.nonempty hc
      · exact hne rfl
    · exact hne (hdu c hc hcd).symm
    · obtain ⟨l, -, rfl⟩ := hd
      rcases LiteralSet.subset_singleton_iff.1 hcd with rfl | rfl
      · obtain ⟨m, -, hm⟩ := hc
        exact LiteralSet.singleton_ne_empty _ hm.symm
      · exact hne rfl
  proper := by
    rintro c (⟨hc, -⟩ | ⟨l, -, rfl⟩)
    · exact hK.proper c hc
    · exact LiteralSet.isTautology_singleton _
  nonempty := by
    rintro (⟨h, -⟩ | ⟨l, -, h⟩)
    · exact hK.nonempty h
    · exact LiteralSet.singleton_ne_empty _ h.symm
  support := subset_rfl
  past := Set.subset_union_right
  known := by
    rintro c (⟨hc, -⟩ | hc) hcu
    · exact hc
    · exact absurd hc hcu
  supported := fun _ hc => .unit hc
  coversKnown := by
    intro c hc
    by_cases h : ∀ u ∈ negation g, u ⊆ c → c = u
    · exact covered_of_mem (.inl ⟨hc, h⟩)
    · push Not at h
      obtain ⟨u, hu, huc, -⟩ := h
      exact ⟨u, .inr hu, huc⟩
  coversUnits := fun _ => covered_of_mem
  closed := by simp

theorem covered_of_known (h : Stage K U P W S) (hr : Covered K r) : Covered W r :=
  hr.trans h.coversKnown

theorem supported_of_mem_resolvents (h : Stage K U P W S) (hr : r ∈ resolvents W S)
    (hn : ¬Covered K r) : Supported K U r := by
  obtain ⟨ht, c, hc, s, hs, l, hl, hl', rfl⟩ := hr
  have hs := h.supported s (h.support hs)
  by_cases hcP : c ∈ P
  · exact .derived (h.supported c hcP) hs hl hl' ht hn
  · exact .known (h.known c hc hcP) hs hl hl' ht hn

/-- **A round that finds the empty set** shows that it is supported. -/
theorem supported_empty (h : Stage K U P W S) (hr : .empty ∈ resolvents W S) :
    Supported K U .empty := by
  refine h.supported_of_mem_resolvents hr fun hK => h.nonempty ?_
  exact covered_empty_iff.1 (h.covered_of_known hK)

/-- The new working set covers the old supported part by its own: what leaves it is subsumed by
something that was produced. -/
theorem covered_past (h : Stage K U P W S) (hr : Covered P r) :
    Covered (P ∩ saturate W S ∪ produced W S) r := by
  refine hr.trans fun p hp => ?_
  obtain ⟨c, hc, hcp⟩ := covered_saturate (S := S) (covered_of_mem (h.past hp))
  refine ⟨c, ?_, hcp⟩
  rcases mem_or_mem_produced hc with hcW | hcn
  · have he : c = p := h.antichain.eq hcW (h.past hp) hcp
    exact .inl ⟨he ▸ hp, hc⟩
  · exact .inr hcn

/-- **A round keeps the stage**, unless it finds the empty set. -/
theorem next (h : Stage K U P W S) (hempty : .empty ∉ resolvents W S) :
    Stage K U (P ∩ saturate W S ∪ produced W S) (saturate W S) (produced W S) where
  toIrredundant := by
    refine irredundant_minimals ?_ ?_
    · rintro c (hc | hc)
      · exact h.proper c hc
      · exact hc.1
    · rintro (hc | hc)
      · exact h.nonempty hc
      · exact hempty hc
  support := Set.subset_union_right
  past := by
    rintro c (⟨-, hc⟩ | ⟨hc, -⟩) <;> exact hc
  known := by
    intro c hc hcP
    rcases mem_or_mem_produced hc with hcW | hcn
    · exact h.known c hcW fun hp => hcP (.inl ⟨hp, hc⟩)
    · exact absurd (.inr hcn) hcP
  supported := by
    rintro c (⟨hc, -⟩ | hc)
    · exact h.supported c hc
    · refine h.supported_of_mem_resolvents (produced_subset_resolvents hc) fun hK => ?_
      exact not_covered_of_mem_produced hc (h.covered_of_known hK)
  coversKnown := fun c hc => covered_saturate (h.coversKnown c hc)
  coversUnits := fun u hu => h.covered_past (h.coversUnits u hu)
  closed := by
    rintro r ⟨ht, c, ⟨hc, hcn⟩, s, ⟨hs, hsn⟩, l, hl⟩
    have hcW : c ∈ W := (mem_or_mem_produced hc).resolve_right hcn
    have hsP : s ∈ P := (hs.resolve_right hsn).1
    -- a pair that meets in this round, or one that has met before
    by_cases hsS : s ∈ S
    · exact covered_saturate_of_mem_resolvents ⟨ht, c, hcW, s, hsS, l, hl⟩
    by_cases hcS : c ∈ S
    · have hr : r ∈ resolvents S W := ⟨ht, c, hcS, s, h.past hsP, l, hl⟩
      rw [resolvents_comm] at hr
      exact covered_saturate_of_mem_resolvents hr
    · exact covered_saturate (h.closed r ⟨ht, c, ⟨hcW, hcS⟩, s, ⟨hsP, hsS⟩, l, hl⟩)

/-! ## At a fixpoint -/

theorem covered_of_produced_eq_empty (h : Stage K U P W S) (hp : produced W S = ∅)
    (hr : r ∈ resolvents W P) : Covered W r := by
  have hround : ∀ r ∈ resolvents W S, Covered W r := by
    intro r hr
    rw [← saturate_eq_self h.antichain hp]
    exact covered_saturate_of_mem_resolvents hr
  obtain ⟨ht, c, hc, s, hs, l, hl⟩ := hr
  by_cases hsS : s ∈ S
  · exact hround r ⟨ht, c, hc, s, hsS, l, hl⟩
  by_cases hcS : c ∈ S
  · apply hround
    rw [resolvents_comm]
    exact ⟨ht, c, hcS, s, h.past hs, l, hl⟩
  · exact h.closed r ⟨ht, c, ⟨hc, hcS⟩, s, ⟨hs, hsS⟩, l, hl⟩

/-- At a fixpoint a resolvent of two covered sets is covered by the supported part, if the knowledge
does not cover it: the covering sets have a resolvent, unless one of them covers it already. -/
theorem covered_resolvent (h : Stage K U P W S) (hp : produced W S = ∅) {c s : LiteralSet} {l : Literal}
    (hc : Covered W c) (hs : Covered P s) (ht : (c.resolvent s l).isTautology = false)
    (hn : ¬Covered K (c.resolvent s l)) : Covered P (c.resolvent s l) := by
  have hW : Covered W (c.resolvent s l) → Covered P (c.resolvent s l) := by
    rintro ⟨e, he, her⟩
    by_cases heP : e ∈ P
    · exact ⟨e, heP, her⟩
    · exact absurd ⟨e, h.known e he heP, her⟩ hn
  obtain ⟨d, hd, hdc⟩ := hc
  obtain ⟨t, hT, hts⟩ := hs
  by_cases hl : l ∈ d
  · by_cases hl' : l.complement ∈ t
    · have hsub : d.resolvent t l ⊆ c.resolvent s l := by
        intro m hm
        rw [LiteralSet.mem_resolvent] at hm ⊢
        exact hm.imp (fun hm => ⟨hdc m hm.1, hm.2⟩) fun hm => ⟨hts m hm.1, hm.2⟩
      have ht' := LiteralSet.isTautology_eq_false_of_subset hsub ht
      have hr : d.resolvent t l ∈ resolvents W P := ⟨ht', d, hd, t, hT, l, hl, hl', rfl⟩
      exact hW ((h.covered_of_produced_eq_empty hp hr).of_subset hsub)
    · refine ⟨t, hT, fun m hm => LiteralSet.mem_resolvent.2 (.inr ⟨hts m hm, ?_⟩)⟩
      rintro rfl
      exact hl' hm
  · refine hW ⟨d, hd, fun m hm => LiteralSet.mem_resolvent.2 (.inl ⟨hdc m hm, ?_⟩)⟩
    rintro rfl
    exact hl hm

/-- **At a fixpoint the empty set is not supported**: all that is supported is covered. -/
theorem not_supported_empty (h : Stage K U P W S) (hp : produced W S = ∅) :
    ¬Supported K U .empty := by
  have hcov : ∀ s, Supported K U s → Covered P s := by
    intro s hs
    induction hs with
    | unit hu => exact h.coversUnits _ hu
    | known hc _ _ _ ht hn ih => exact h.covered_resolvent hp (h.coversKnown _ hc) ih ht hn
    | derived _ _ _ _ ht hn ihc ihs => exact h.covered_resolvent hp (ihc.mono h.past) ihs ht hn
  intro hs
  exact h.nonempty (h.past (covered_empty_iff.1 (hcov _ hs)))

end Stage

end Clausal
