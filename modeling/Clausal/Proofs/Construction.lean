import Clausal.Proofs.Bookkeeping
import Clausal.Proofs.Walk

/-!
# Building a knowledge base

A knowledge base is built by adding clauses one after the other: a new clause is dropped, or goes to the end and
pushes others out.  What is left in the end can be said without the history.

* `Stays sets s i`: the set `s` at position `i` of the list `sets` is no tautology, the list has no strict subset of
  it, and it was not there before;
* `kept sets`: the sets that stay, as clauses numbered by their positions from 1.  As a collection it does not depend
  on the order of the list (`mem_setsOf_kept`);
* `kept_snoc_of_redundant`, `kept_snoc_of_new`: what one set more does to it.  This is what adding a clause does
  to a knowledge base, so texts build exactly what is kept of them (`Engine.Built.addAll`).
-/

namespace Clausal

variable {s : LiteralSet} {sets : List LiteralSet}

/-! ## What is kept -/

/-- The set at a position of the list is no tautology, has no strict subset in the list, and does not stand before the
position. -/
def Stays (sets : List LiteralSet) (s : LiteralSet) (i : Nat) : Prop :=
  s.isTautology = false ∧ (∀ t ∈ sets, t ⊆ s → t = s) ∧ s ∉ sets.take i

instance (sets : List LiteralSet) (s : LiteralSet) (i : Nat) : Decidable (Stays sets s i) :=
  inferInstanceAs (Decidable (_ ∧ _ ∧ _))

/-- The sets that stay, in order, as clauses with the numbers of their positions from 1 on. -/
def kept (sets : List LiteralSet) : List Clause :=
  (sets.zipIdx.filter fun (s, i) => decide (Stays sets s i)).map fun (s, i) => { literals := s, id := i + 1 }

theorem literals_kept_sublist (sets : List LiteralSet) : ((kept sets).map Clause.literals).Sublist sets := by
  have hsub := (List.filter_sublist (p := fun (s, i) => decide (Stays sets s i)) (l := sets.zipIdx)).map Prod.fst
  rw [List.zipIdx_map_fst] at hsub
  rw [kept, List.map_map]
  exact hsub

/-- **The order of the list does not matter** to what is kept as a collection: it is the sets without a strict subset in
the list that are no tautologies. -/
theorem mem_setsOf_kept :
    s ∈ setsOf (kept sets) ↔ s ∈ sets ∧ s.isTautology = false ∧ ∀ t ∈ sets, t ⊆ s → t = s := by
  constructor
  · rintro ⟨c, hc, rfl⟩
    obtain ⟨⟨s, i⟩, hmem, rfl⟩ := List.mem_map.1 hc
    obtain ⟨hmem, hstays⟩ := List.mem_filter.1 hmem
    obtain ⟨hproper, hleast, -⟩ := of_decide_eq_true hstays
    exact ⟨List.fst_mem_of_mem_zipIdx hmem, hproper, hleast⟩
  · rintro ⟨hmem, hproper, hleast⟩
    -- of several occurrences the first one stays
    have hlt : sets.idxOf s < sets.length := List.idxOf_lt_length_of_mem hmem
    have hfirst : s ∉ sets.take (sets.idxOf s) := fun hs =>
      lt_irrefl _ ((List.mem_take_iff_idxOf_lt hmem).1 hs)
    have hzip : (s, sets.idxOf s) ∈ sets.zipIdx := by
      rw [List.mem_zipIdx_iff_getElem?, List.getElem?_eq_getElem hlt, List.getElem_idxOf]
    refine ⟨{ literals := s, id := sets.idxOf s + 1 }, List.mem_map.2 ⟨_, List.mem_filter.2 ⟨hzip, ?_⟩, rfl⟩, rfl⟩
    exact decide_eq_true ⟨hproper, hleast, hfirst⟩

theorem isAntichain_kept (sets : List LiteralSet) : IsAntichain (· ⊆ ·) (setsOf (kept sets)) := by
  intro s hs t ht hne hst
  exact hne ((mem_setsOf_kept.1 ht).2.2 s (mem_setsOf_kept.1 hs).1 hst)

/-- What is kept subsumes everything else but tautologies. -/
theorem covered_kept (hs : s ∈ sets) (hproper : s.isTautology = false) : Covered (setsOf (kept sets)) s := by
  obtain ⟨t, ht, hts⟩ := covered_minimals_of_mem (X := {t | t ∈ sets}) hs
  obtain ⟨hmem, hleast⟩ := mem_minimals.1 ht
  have hproper' := LiteralSet.isTautology_eq_false_of_subset hts hproper
  exact ⟨t, mem_setsOf_kept.2 ⟨hmem, hproper', fun u hu hut => (hleast u hu hut).symm⟩, hts⟩

/-- A list without repetitions in which no set makes another redundant is kept whole. -/
theorem kept_of_irredundant (h : Irredundant {s | s ∈ sets}) (hnodup : sets.Nodup) :
    kept sets = sets.zipIdx.map fun (s, i) => { literals := s, id := i + 1 } := by
  rw [kept, List.filter_eq_self.2]
  rintro ⟨s, i⟩ hmem
  have hget : sets[i]? = some s := List.mem_zipIdx_iff_getElem?.1 hmem
  obtain ⟨hi, rfl⟩ := List.getElem?_eq_some_iff.1 hget
  have hs : sets[i] ∈ sets := List.getElem_mem hi
  refine decide_eq_true ⟨h.proper _ hs, fun t ht hts => h.antichain.eq ht hs hts, fun htake => ?_⟩
  rw [List.mem_take_iff_idxOf_lt hs, hnodup.idxOf_getElem] at htake
  exact lt_irrefl i htake

/-! ## One set more -/

/-- One set more at the end pushes out what it strictly subsumes, and stays itself or not. -/
theorem kept_snoc (sets : List LiteralSet) (s : LiteralSet) :
    kept (sets ++ [s]) = (kept sets).filter (fun c => decide (s ⊆ c.literals → s = c.literals)) ++
      if Stays (sets ++ [s]) s sets.length then [{ literals := s, id := sets.length + 1 }] else [] := by
  have hold : ∀ p ∈ sets.zipIdx, decide (Stays (sets ++ [s]) p.1 p.2) =
      (decide (s ⊆ p.1 → s = p.1) && decide (Stays sets p.1 p.2)) := by
    rintro ⟨t, i⟩ hp
    have hi : i ≤ sets.length := (List.snd_lt_of_mem_zipIdx hp).le
    rw [Bool.eq_iff_iff, Bool.and_eq_true, decide_eq_true_iff, decide_eq_true_iff, decide_eq_true_iff]
    simp only [Stays, List.forall_mem_append, List.forall_mem_singleton, List.take_append_of_le_length hi]
    tauto
  have hlast : ([(s, sets.length)].filter fun (t, i) => decide (Stays (sets ++ [s]) t i)) =
      if Stays (sets ++ [s]) s sets.length then [(s, sets.length)] else [] := by
    by_cases hs : Stays (sets ++ [s]) s sets.length
    · simp [hs]
    · simp [hs]
  have hzip : (sets ++ [s]).zipIdx = sets.zipIdx ++ [(s, sets.length)] := by
    simp [List.zipIdx_append]
  rw [kept, hzip, List.filter_append, hlast, List.map_append, List.filter_congr hold, ← List.filter_filter,
    kept, List.filter_map]
  congr 1
  split <;> rfl

/-- A tautology and what is subsumed make no difference. -/
theorem kept_snoc_of_redundant (h : s.isTautology = true ∨ Covered (setsOf (kept sets)) s) :
    kept (sets ++ [s]) = kept sets := by
  have hdropped : ¬Stays (sets ++ [s]) s sets.length := by
    rintro ⟨hproper, hleast, hfirst⟩
    rcases h with ht | ⟨t, ht, hts⟩
    · rw [hproper] at ht
      cases ht
    · have hmem := (mem_setsOf_kept.1 ht).1
      have heq : t = s := hleast t (List.mem_append_left _ hmem) hts
      rw [List.take_left] at hfirst
      exact hfirst (heq ▸ hmem)
  rw [kept_snoc, if_neg hdropped, List.append_nil, List.filter_eq_self]
  -- what the new set subsumes strictly would be a tautology or subsumed by another before
  intro c hc
  rw [decide_eq_true_iff]
  intro hsub
  obtain ⟨-, hproper, hleast⟩ := mem_setsOf_kept.1 (⟨c, hc, rfl⟩ : c.literals ∈ setsOf (kept sets))
  rcases h with ht | ⟨t, ht, hts⟩
  · rw [LiteralSet.isTautology_eq_false_of_subset hsub hproper] at ht
    cases ht
  · have heq : t = c.literals := hleast t (mem_setsOf_kept.1 ht).1 (LiteralSet.subset_trans hts hsub)
    exact LiteralSet.subset_antisymm hsub (heq ▸ hts)

/-- Any other set goes to the end and pushes out what it subsumes. -/
theorem kept_snoc_of_new (hproper : s.isTautology = false) (h : ¬Covered (setsOf (kept sets)) s) :
    kept (sets ++ [s]) =
      (kept sets).filter (fun c => decide ¬s ⊆ c.literals) ++ [{ literals := s, id := sets.length + 1 }] := by
  have hstays : Stays (sets ++ [s]) s sets.length := by
    refine ⟨hproper, fun t ht hts => ?_, fun hs => h ?_⟩
    · rcases List.mem_append.1 ht with ht | ht
      · exact absurd ((covered_kept ht (LiteralSet.isTautology_eq_false_of_subset hts hproper)).of_subset hts) h
      · exact List.mem_singleton.1 ht
    · rw [List.take_left] at hs
      exact covered_kept hs hproper
  rw [kept_snoc, if_pos hstays]
  congr 1
  refine List.filter_congr fun c hc => ?_
  rw [Bool.eq_iff_iff, decide_eq_true_iff, decide_eq_true_iff]
  refine ⟨fun himp hsub => h ?_, fun hnot hsub => absurd hsub hnot⟩
  exact covered_of_mem (himp hsub ▸ ⟨c, hc, rfl⟩)

/-! ## Adding texts -/

namespace Engine

variable {e : Engine} {texts : List String}

/-- The engine has been told the sets: it holds what is kept of them, and each has used up a number. -/
structure Built (e : Engine) (sets : List LiteralSet) : Prop where
  counter : e.counter = sets.length + 1
  knowledge : e.knowledge.toList = kept sets

theorem built_fresh : Built {} [] := ⟨rfl, rfl⟩

/-- One text more is one set more. -/
theorem Built.add (h : e.Built sets) {text : String} (hread : Clause.parseLiterals text.toList = .ok s) :
    ∃ e₁, e.add text = (.ok (), e₁) ∧ e₁.Built (sets ++ [s]) := by
  let c : Clause := { literals := s, id := sets.length + 1 }
  let counted : Engine := { e with counter := e.counter + 1 }
  have hparse : Clause.parse e.counter text = .ok c := Clause.parse_eq_ok_iff.2 ⟨s, hread, by rw [h.counter]⟩
  have hcounter : (counted.learn c).counter = (sets ++ [s]).length + 1 := by
    rw [learn_frame]
    show e.counter + 1 = _
    rw [h.counter, List.length_append]
    rfl
  have hsets : e.knowledge.sets = setsOf (kept sets) := by
    rw [ClauseTable.sets, h.knowledge]
  refine ⟨counted.learn c, by rw [Engine.add, hparse], hcounter, ?_⟩
  rcases learn_cases (e := counted) (hsets ▸ isAntichain_kept sets) c with ⟨hredundant, heq⟩ | ⟨hproper, hnew, hlist⟩
  · rw [heq, kept_snoc_of_redundant (hsets ▸ hredundant)]
    exact h.knowledge
  · rw [hlist, kept_snoc_of_new hproper (hsets ▸ hnew), ← h.knowledge]

/-- **Texts build what is kept of their sets.** -/
theorem Built.addAll (h : e.Built sets) {more : List LiteralSet}
    (hreads : List.Forall₂ (fun text s => Clause.parseLiterals text.toList = .ok s) texts more) :
    ∃ e₁, e.addAll texts = (.ok (), e₁) ∧ e₁.Built (sets ++ more) := by
  induction hreads generalizing e sets with
  | nil => exact ⟨e, rfl, by rwa [List.append_nil]⟩
  | @cons text s texts more hread _ ih =>
    obtain ⟨e₁, hadd, hbuilt⟩ := h.add hread
    obtain ⟨e₂, haddAll, hbuilt₂⟩ := ih hbuilt
    refine ⟨e₂, ?_, ?_⟩
    · rw [Engine.addAll, hadd]
      exact haddAll
    · rwa [List.append_assoc] at hbuilt₂

theorem built_ofTexts (hreads : List.Forall₂ (fun text s => Clause.parseLiterals text.toList = .ok s) texts sets) :
    ∃ e, ofTexts texts = .ok e ∧ e.Built sets := by
  obtain ⟨e, hadd, hbuilt⟩ := built_fresh.addAll hreads
  exact ⟨e, by rw [ofTexts, hadd], hbuilt⟩

theorem reads_of_mapM {cs : List Clause} (h : texts.mapM (Clause.parse 0) = .ok cs) :
    List.Forall₂ (fun text s => Clause.parseLiterals text.toList = .ok s) texts (cs.map Clause.literals) := by
  rw [List.forall₂_map_right_iff]
  refine (mapM_eq_ok_iff.1 h).imp fun text c hparse => ?_
  obtain ⟨s, hread, rfl⟩ := Clause.parse_eq_ok_iff.1 hparse
  exact hread

/-- Whether texts can be added, and why not, does not depend on what is known. -/
theorem fst_addAll (e : Engine) (texts : List String) :
    (e.addAll texts).1 = (fun _ => ()) <$> texts.mapM (Clause.parse 0) := by
  induction texts generalizing e with
  | nil => rfl
  | cons text texts ih =>
    rw [Engine.addAll, Engine.add, List.mapM_cons]
    cases hparse : Clause.parse 0 text with
    | error error =>
      rw [Clause.parse_eq_error_iff.2 (Clause.parse_eq_error_iff.1 hparse)]
      rfl
    | ok c =>
      obtain ⟨s, hread, -⟩ := Clause.parse_eq_ok_iff.1 hparse
      rw [Clause.parse_eq_ok_iff.2 ⟨s, hread, rfl⟩]
      dsimp only
      rw [ih]
      cases texts.mapM (Clause.parse 0) with
      | error error => rfl
      | ok cs => rfl

theorem ofTexts_of_error {error : ParseError} (h : texts.mapM (Clause.parse 0) = .error error) :
    ofTexts texts = .error error := by
  have hadd := fst_addAll {} texts
  rw [h] at hadd
  unfold ofTexts
  generalize ({} : Engine).addAll texts = result at hadd
  obtain ⟨first, e⟩ := result
  obtain rfl : first = .error error := hadd
  rfl

/-- **The knowledge base that texts build**, said without its history: each text uses up a number, and the clauses are
those without a strict subset among all of the texts that are no tautologies, in order, at their first occurrences and
with the numbers of these.  The same sets are known whatever the order of the texts. -/
theorem ofTexts_keeps {cs : List Clause} (h : texts.mapM (Clause.parse 0) = .ok cs) :
    ∃ e, ofTexts texts = .ok e ∧ e.counter = texts.length + 1 ∧
      e.knowledge.toList = kept (cs.map Clause.literals) ∧
      ∀ texts', texts'.Perm texts → ∃ e', ofTexts texts' = .ok e' ∧ e'.knowledge.sets = e.knowledge.sets := by
  have hreads := reads_of_mapM h
  obtain ⟨e, hofTexts, hbuilt⟩ := built_ofTexts hreads
  refine ⟨e, hofTexts, ?_, hbuilt.knowledge, fun texts' hperm => ?_⟩
  · rw [hbuilt.counter, hreads.length_eq]
  · obtain ⟨sets, hreads', hsets⟩ := List.perm_comp_forall₂ hperm hreads
    obtain ⟨e', hofTexts', hbuilt'⟩ := built_ofTexts hreads'
    refine ⟨e', hofTexts', ?_⟩
    ext s
    rw [ClauseTable.sets, ClauseTable.sets, hbuilt.knowledge, hbuilt'.knowledge, mem_setsOf_kept, mem_setsOf_kept]
    simp only [hsets.mem_iff]

/-- A tautology, a clause said twice, and clauses that a later one subsumes. -/
theorem ofTexts_keeps_least :
    let texts := ["p v q", "q v ~q", "r v p v q", "p", "q v p", "~r", "p"]
    let p : Literal := ⟨"p", false⟩
    let q : Literal := ⟨"q", false⟩
    let r : Literal := ⟨"r", false⟩
    let cs : List Clause := [[p, q], [q, q.complement], [p, q, r], [p], [p, q], [r.complement], [p]].map fun ls =>
      { literals := .ofList ls }
    texts.mapM (Clause.parse 0) = .ok cs ∧ ∃ e, ofTexts texts = .ok e ∧ e.counter = 8 ∧
      e.knowledge.toList = [{ literals := .singleton p, id := 4 }, { literals := .singleton r.complement, id := 6 }] ∧
      ∃ e', ofTexts texts.reverse = .ok e' ∧ e'.knowledge.sets = e.knowledge.sets := by
  intro texts p q r cs
  have h : texts.mapM (Clause.parse 0) = .ok cs := by decide +kernel
  have hkept : kept (cs.map Clause.literals) =
      [{ literals := .singleton p, id := 4 }, { literals := .singleton r.complement, id := 6 }] := by decide +kernel
  obtain ⟨e, hofTexts, hcounter, hknown, hperm⟩ := ofTexts_keeps h
  exact ⟨h, e, hofTexts, hcounter, hknown.trans hkept, hperm _ (List.reverse_perm texts)⟩

end Engine

end Clausal
