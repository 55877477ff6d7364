import Clausal.Engine.Run
import Clausal.Proofs.Round

/-!
# How a run begins and ends

* `Engine.starts_start`: a run begins with copies of the knowledge base, of which the working set has all
  but those that the support strictly subsumes;
* `Engine.findConflict_eq_none_iff`: complementary units in the knowledge base are found before the first
  round;
* `Engine.sets_knowledge_reset`: the end of a run only numbers the knowledge base anew.
-/

namespace Clausal

/-! ## The working set of the first round -/

theorem initialWorking_empty (K : Set LiteralSet) : initialWorking K ∅ = K := by
  ext c
  simp [initialWorking]

/-- One unit more takes out what it strictly subsumes. -/
theorem initialWorking_insert {K U : Set LiteralSet} {u : LiteralSet} (h : ∀ d ∈ U, u ⊆ d → d = u) :
    initialWorking K (insert u U) =
      insert u (initialWorking K U \ {c | c ∈ K ∧ u ⊆ c ∧ c ≠ u}) := by
  ext c
  constructor
  · rintro (⟨hc, hall⟩ | rfl | hc)
    · refine .inr ⟨.inl ⟨hc, fun w hw => hall w (.inr hw)⟩, ?_⟩
      rintro ⟨-, huc, hne⟩
      exact hne (hall u (.inl rfl) huc)
    · exact .inl rfl
    · by_cases hcu : c = u
      · exact .inl hcu
      · exact .inr ⟨.inr hc, fun hout => hcu (h c hc hout.2.1)⟩
  · rintro (rfl | ⟨⟨hc, hall⟩ | hc, hout⟩)
    · exact .inr (.inl rfl)
    · refine .inl ⟨hc, fun w hw hwc => ?_⟩
      rcases hw with rfl | hw
      · by_contra hne
        exact hout ⟨hc, hwc, hne⟩
      · exact hall w hw hwc
    · exact .inr (.inr hc)

theorem isAntichain_negation (g : LiteralSet) : IsAntichain (· ⊆ ·) (negation g) := by
  rintro _ ⟨l, -, rfl⟩ _ ⟨m, -, rfl⟩ hne h
  rcases LiteralSet.subset_singleton_iff.1 h with he | he
  · exact LiteralSet.singleton_ne_empty _ he
  · exact hne he

namespace Engine

theorem sets_seed (copies : List Clause) (t : ClauseTable) (s : Clause) :
    (seed copies t s).sets = insert s.literals
      (t.sets \ {c | c ∈ setsOf copies ∧ s.literals ⊆ c ∧ c ≠ s.literals}) := by
  unfold seed
  rw [ClauseTable.sets_put, ClauseTable.sets_foldl_erase]
  congr 2
  ext c
  simp only [mem_setsOf, List.mem_filter, Bool.and_eq_true, Clause.subsumes_iff, bne_iff_ne,
    Set.mem_ofPred_eq]
  constructor
  · rintro ⟨d, ⟨hd, hsd, hne⟩, rfl⟩
    exact ⟨⟨d, hd, rfl⟩, hsd, hne⟩
  · rintro ⟨⟨d, hd, rfl⟩, hsd, hne⟩
    exact ⟨d, ⟨hd, hsd, hne⟩, rfl⟩

theorem sets_foldl_seed {copies units : List Clause} {t : ClauseTable} {U V : Set LiteralSet}
    (hV : IsAntichain (· ⊆ ·) V) (hU : U ⊆ V) (hunits : setsOf units ⊆ V)
    (ht : t.sets = initialWorking (setsOf copies) U) :
    (units.foldl (seed copies) t).sets = initialWorking (setsOf copies) (U ∪ setsOf units) := by
  induction units generalizing t U with
  | nil => rw [setsOf_nil, Set.union_empty, List.foldl_nil, ht]
  | cons s units ih =>
    rw [setsOf_cons] at hunits
    have hs : s.literals ∈ V := hunits (.inl rfl)
    have hU' : insert s.literals U ⊆ V := Set.insert_subset hs hU
    rw [List.foldl_cons, setsOf_cons, Set.union_insert, ← Set.insert_union]
    refine ih hU' (fun c hc => hunits (.inr hc)) ?_
    rw [sets_seed, ht, initialWorking_insert]
    exact fun d hd h => (hV.eq hs (hU hd) h).symm

/-- The engine with a new derivation. -/
def opened (e : Engine) : Engine :=
  { e with
    earlier := e.earlier.push e.derivation
    derivation := { number := e.derivation.number + 1 } }

/-- The clauses of the knowledge base, in no derivation. -/
def bare (e : Engine) : List Clause := e.knowledge.toList.map fun c => { c with parents := [], places := [] }

/-- The copies of the knowledge base with which the new derivation begins. -/
def copied (e : Engine) : List Clause × Engine := e.opened.registerAll e.bare

/-- The support, which follows them. -/
def enlisted (e : Engine) : List Clause × Engine := e.copied.2.registerAll e.copied.2.support.toList

theorem start_eq (e : Engine) : e.start = (e.copied.1, { e.enlisted.2 with
    support := .ofList e.enlisted.1
    working := e.enlisted.1.foldl (seed e.copied.1) (.ofList e.copied.1) }) := rfl

/-- What a run begins with. -/
structure Starts (e : Engine) (copies : List Clause) (e' : Engine) : Prop where
  copies : setsOf copies = e.knowledge.sets
  knowledge : e'.knowledge = e.knowledge
  goal : e'.goal = e.goal
  support : e'.support.sets = e.support.sets
  working : IsAntichain (· ⊆ ·) e.support.sets →
    e'.working.sets = initialWorking e.knowledge.sets e.support.sets

theorem starts_start (e : Engine) : e.Starts e.start.1 e.start.2 := by
  have h₁ : e.opened.Agrees e.copied.2 := agrees_registerAll _ _
  have h₂ : e.copied.2.Agrees e.enlisted.2 := agrees_registerAll _ _
  have hsupport : setsOf e.enlisted.1 = e.support.sets := by
    rw [enlisted, setsOf_eq_of_map (map_registerAll fun _ _ => rfl)]
    exact h₁.support
  have hcopies : setsOf e.copied.1 = e.knowledge.sets := by
    refine setsOf_eq_of_map ?_
    rw [copied, map_registerAll fun _ _ => rfl, bare, List.map_map]
    rfl
  rw [start_eq]
  refine ⟨hcopies, h₂.knowledge.trans h₁.knowledge, h₂.goal.trans h₁.goal, ?_, fun hanti => ?_⟩
  · show (ClauseTable.ofList _).sets = _
    rw [ClauseTable.sets_ofList, hsupport]
  · show (e.enlisted.1.foldl (seed e.copied.1) _).sets = _
    rw [sets_foldl_seed (U := ∅) hanti (Set.empty_subset _) hsupport.le, hcopies, hsupport,
      Set.empty_union]
    rw [ClauseTable.sets_ofList, initialWorking_empty]

end Engine

/-! ## Complementary units -/

/-- Two of the sets are complementary units. -/
def Conflict (X : Set LiteralSet) : Prop :=
  ∃ l : Literal, .singleton l ∈ X ∧ .singleton l.complement ∈ X

theorem Conflict.not_models {X : Set LiteralSet} (h : Conflict X) (v : Assignment) : ¬Models v X := by
  obtain ⟨l, hl, hl'⟩ := h
  intro hv
  have h1 := hv _ hl
  have h2 := hv _ hl'
  rw [LiteralSet.value_singleton] at h1 h2
  rw [Literal.value_complement, h1] at h2
  cases h2

namespace Engine

theorem findConflict_cons_of_not_unit {c : Clause} {units cs : List Clause}
    (h : ∀ l, c.literals ≠ .singleton l) :
    findConflict units (c :: cs) = findConflict units cs := by
  rw [findConflict]
  split
  · rename_i l hl
    exact absurd (LiteralSet.toList_inj.1 hl) (h l)
  · rfl

theorem findConflict_cons_of_unit {c : Clause} {units cs : List Clause} {l : Literal}
    (h : c.literals = .singleton l) :
    (findConflict units (c :: cs)).isSome = true ↔
      .singleton l.complement ∈ setsOf units ∨ (findConflict (c :: units) cs).isSome = true := by
  have hlist : c.literals.toList = [l] := by rw [h]; rfl
  simp only [findConflict, hlist]
  cases hfind : units.find? fun d => d.literals == .singleton l.complement with
  | some d =>
    have hd : d.literals = .singleton l.complement := by simpa using List.find?_some hfind
    exact iff_of_true rfl (.inl ⟨d, List.mem_of_find?_eq_some hfind, hd⟩)
  | none =>
    refine (or_iff_right ?_).symm
    rintro ⟨d, hd, he⟩
    have := List.find?_eq_none.1 hfind d hd
    simp [he] at this

/-- The units that came before are kept, so that of two complementary units the second one meets the
first. -/
theorem findConflict_isSome_iff {units cs : List Clause} :
    (findConflict units cs).isSome = true ↔ ∃ l : Literal, .singleton l ∈ setsOf cs ∧
      (.singleton l.complement ∈ setsOf units ∨ .singleton l.complement ∈ setsOf cs) := by
  induction cs generalizing units with
  | nil => simp [findConflict]
  | cons c cs ih =>
    rw [setsOf_cons]
    by_cases hunit : ∃ l, c.literals = .singleton l
    · obtain ⟨l, hl⟩ := hunit
      rw [findConflict_cons_of_unit hl, ih, setsOf_cons, hl]
      constructor
      · rintro (h | ⟨m, hm, (h | h) | h⟩)
        · exact ⟨l, .inl rfl, .inl h⟩
        · exact ⟨m, .inr hm, .inr (.inl h)⟩
        · exact ⟨m, .inr hm, .inl h⟩
        · exact ⟨m, .inr hm, .inr (.inr h)⟩
      · rintro ⟨m, hm | hm, h⟩
        · have hml : m = l := LiteralSet.singleton_inj.1 hm
          subst hml
          rcases h with h | h | h
          · exact .inl h
          · exact absurd (LiteralSet.singleton_inj.1 h) (Literal.complement_ne m)
          · refine .inr ⟨m.complement, h, .inl (.inl ?_)⟩
            rw [Literal.complement_complement]
        · rcases h with h | h | h
          · exact .inr ⟨m, hm, .inl (.inr h)⟩
          · exact .inr ⟨m, hm, .inl (.inl h)⟩
          · exact .inr ⟨m, hm, .inr h⟩
    · push Not at hunit
      have hne : ∀ l : Literal, .singleton l ∈ insert c.literals (setsOf cs) ↔
          .singleton l ∈ setsOf cs :=
        fun l => or_iff_right fun h => hunit l h.symm
      rw [findConflict_cons_of_not_unit hunit, ih]
      simp only [hne]

theorem findConflict_eq_none_iff {cs : List Clause} :
    findConflict [] cs = none ↔ ¬Conflict (setsOf cs) := by
  rw [← Option.not_isSome_iff_eq_none, findConflict_isSome_iff]
  simp [Conflict]

theorem conflict_of_findConflict {cs : List Clause} {pair : Clause × Clause}
    (h : findConflict [] cs = some pair) : Conflict (setsOf cs) := by
  by_contra hn
  rw [findConflict_eq_none_iff.2 hn] at h
  cases h

/-! ## The end -/

theorem map_literals_renumbered (next : Int) (cs : List Clause) :
    (renumbered next cs).map Clause.literals = cs.map Clause.literals := by
  induction cs generalizing next with
  | nil => rfl
  | cons c cs ih => rw [renumbered, List.map_cons, List.map_cons, ih]

theorem sets_knowledge_reset (e : Engine) : e.reset.knowledge.sets = e.knowledge.sets := by
  show (ClauseTable.ofList (renumbered 1 e.knowledge.toList)).sets = _
  rw [ClauseTable.sets_ofList]
  exact setsOf_eq_of_map (map_literals_renumbered _ _)

end Engine

end Clausal
