import Clausal.LiteralSet
import Mathlib.Data.Finset.Basic
import Mathlib.Data.Finset.Dedup
import Mathlib.Data.List.Sort
import Mathlib.Order.Antichain
import Mathlib.Order.Minimal

/-!
# Subsumption

Two literal sets with the same members are equal (`LiteralSet.ext`).  They are ordered by inclusion: the smaller set is
the more general one and subsumes the larger.

* `Covered X s`: some set of `X` subsumes `s`;
* `minimals X`: the sets of `X` that no other set of `X` subsumes.  They cover all that `X` covers
  (`covered_minimals`) and are pairwise unrelated (`isAntichain_minimals`);
* `minimals_insert_of_covered`, `minimals_insert_of_not_covered`: what one set more does to them.
-/

namespace Clausal

instance : Std.Irrefl fun l m : Literal => l < m := ⟨Literal.lt_irrefl⟩

instance : Std.Antisymm fun l m : Literal => l < m :=
  ⟨fun l _ h h' => absurd (Literal.lt_trans h h') (Literal.lt_irrefl l)⟩

namespace LiteralSet

@[ext]
theorem ext {s t : LiteralSet} (h : ∀ l, l ∈ s ↔ l ∈ t) : s = t :=
  toList_inj.1 (s.increasing.eq_of_mem_iff t.increasing h)

instance : PartialOrder LiteralSet where
  le s t := s ⊆ t
  le_refl _ _ h := h
  le_trans _ _ _ h h' l hl := h' l (h l hl)
  le_antisymm _ _ h h' := ext fun l => ⟨h l, h' l⟩

theorem subset_rfl {s : LiteralSet} : s ⊆ s := le_refl s

theorem subset_trans {s t u : LiteralSet} (h : s ⊆ t) (h' : t ⊆ u) : s ⊆ u := le_trans (a := s) h h'

theorem subset_antisymm {s t : LiteralSet} (h : s ⊆ t) (h' : t ⊆ s) : s = t := le_antisymm h h'

def toFinset (s : LiteralSet) : Finset Literal := s.toList.toFinset

@[simp] theorem mem_toFinset {s : LiteralSet} {l : Literal} : l ∈ s.toFinset ↔ l ∈ s := by
  simp [toFinset, mem_toList]

theorem nodup_toList (s : LiteralSet) : s.toList.Nodup := by
  refine s.increasing.imp fun {l m} hlt heq => ?_
  rw [heq] at hlt
  exact Literal.lt_irrefl m hlt

/-- There are no infinite descents, for the sets are finite. -/
instance : WellFoundedLT LiteralSet := by
  refine StrictMono.wellFoundedLT (f := toFinset) fun s t h => ?_
  refine Finset.ssubset_iff_subset_ne.2 ⟨fun l hl => ?_, fun he => ?_⟩
  · exact mem_toFinset.2 (h.le l (mem_toFinset.1 hl))
  · refine h.ne (ext fun l => ?_)
    rw [← mem_toFinset, he, mem_toFinset]

theorem empty_subset (s : LiteralSet) : empty ⊆ s := fun _ hl => absurd hl not_mem_empty

theorem subset_empty_iff {s : LiteralSet} : s ⊆ empty ↔ s = empty :=
  ⟨fun h => subset_antisymm h (empty_subset s), fun h => h ▸ subset_rfl⟩

theorem singleton_subset_iff {s : LiteralSet} {l : Literal} : singleton l ⊆ s ↔ l ∈ s :=
  ⟨fun h => h l (mem_singleton.2 rfl), fun h _ hm => mem_singleton.1 hm ▸ h⟩

theorem subset_singleton_iff {s : LiteralSet} {l : Literal} :
    s ⊆ singleton l ↔ s = empty ∨ s = singleton l := by
  constructor
  · intro h
    by_cases hl : l ∈ s
    · exact .inr (subset_antisymm h (singleton_subset_iff.2 hl))
    · refine .inl (subset_empty_iff.1 fun m hm => absurd hm ?_)
      rwa [mem_singleton.1 (h m hm)]
  · rintro (rfl | rfl)
    · exact empty_subset _
    · exact subset_rfl

theorem singleton_ne_empty (l : Literal) : singleton l ≠ empty := by
  intro h
  exact not_mem_empty (h ▸ mem_singleton.2 rfl : l ∈ empty)

theorem singleton_inj {l m : Literal} : singleton l = singleton m ↔ l = m := by
  refine ⟨fun h => ?_, fun h => h ▸ rfl⟩
  exact mem_singleton.1 (h ▸ mem_singleton.2 rfl : l ∈ singleton m)

theorem isTautology_singleton (l : Literal) : (singleton l).isTautology = false := by
  rw [Bool.eq_false_iff]
  intro h
  obtain ⟨m, hm, hc⟩ := isTautology_iff.1 h
  rw [mem_singleton] at hm hc
  exact Literal.complement_ne m (hc.trans hm.symm)

theorem isTautology_eq_false_of_subset {s t : LiteralSet} (h : s ⊆ t) (ht : t.isTautology = false) :
    s.isTautology = false := by
  rw [Bool.eq_false_iff] at ht ⊢
  intro hs
  obtain ⟨l, hl, hc⟩ := isTautology_iff.1 hs
  exact ht (isTautology_iff.2 ⟨l, h l hl, h _ hc⟩)

end LiteralSet

/-! ## Covered sets -/

/-- A set of the collection subsumes the set. -/
def Covered (X : Set LiteralSet) (s : LiteralSet) : Prop := ∃ c ∈ X, c ⊆ s

section Covered

variable {X Y : Set LiteralSet} {s t : LiteralSet}

theorem covered_of_mem (h : s ∈ X) : Covered X s := ⟨s, h, LiteralSet.subset_rfl⟩

theorem Covered.mono (h : X ⊆ Y) (hs : Covered X s) : Covered Y s := by
  obtain ⟨c, hc, hcs⟩ := hs
  exact ⟨c, h hc, hcs⟩

theorem Covered.of_subset (hs : Covered X s) (h : s ⊆ t) : Covered X t := by
  obtain ⟨c, hc, hcs⟩ := hs
  exact ⟨c, hc, LiteralSet.subset_trans hcs h⟩

theorem Covered.trans (hY : ∀ c ∈ X, Covered Y c) (hs : Covered X s) : Covered Y s := by
  obtain ⟨c, hc, hcs⟩ := hs
  exact (hY c hc).of_subset hcs

theorem covered_empty_iff : Covered X .empty ↔ .empty ∈ X := by
  refine ⟨?_, covered_of_mem⟩
  rintro ⟨c, hc, h⟩
  exact LiteralSet.subset_empty_iff.1 h ▸ hc

end Covered

/-! ## Minimal sets -/

/-- The sets of a collection that no other set of the collection subsumes. -/
def minimals (X : Set LiteralSet) : Set LiteralSet := {c | Minimal (· ∈ X) c}

section Minimals

variable {X : Set LiteralSet} {s c : LiteralSet}

theorem mem_minimals : c ∈ minimals X ↔ c ∈ X ∧ ∀ d ∈ X, d ⊆ c → c = d := minimal_iff

theorem minimals_subset : minimals X ⊆ X := fun _ hc => (mem_minimals.1 hc).1

theorem isAntichain_minimals : IsAntichain (· ⊆ ·) (minimals X) := by
  intro c hc d hd hne h
  exact hne.symm ((mem_minimals.1 hd).2 c (minimals_subset hc) h)

/-- Every set of the collection is subsumed by a minimal one. -/
theorem covered_minimals_of_mem (h : s ∈ X) : Covered (minimals X) s := by
  obtain ⟨c, hcs, hc⟩ := exists_minimal_le_of_wellFoundedLT (· ∈ X) s h
  exact ⟨c, hc, hcs⟩

theorem covered_minimals : Covered (minimals X) s ↔ Covered X s :=
  ⟨Covered.mono minimals_subset, Covered.trans fun _ => covered_minimals_of_mem⟩

theorem minimals_eq_self (h : IsAntichain (· ⊆ ·) X) : minimals X = X := by
  refine minimals_subset.antisymm fun c hc => mem_minimals.2 ⟨hc, fun d hd hdc => ?_⟩
  exact (h.eq hd hc hdc).symm

/-- One set more makes no difference if it is covered. -/
theorem minimals_insert_of_covered (h : Covered X s) : minimals (insert s X) = minimals X := by
  ext c
  rw [mem_minimals, mem_minimals]
  constructor
  · rintro ⟨hc, hmin⟩
    refine ⟨?_, fun d hd => hmin d (.inr hd)⟩
    rcases hc with rfl | hc
    · obtain ⟨d, hd, hdc⟩ := h
      rwa [hmin d (.inr hd) hdc]
    · exact hc
  · rintro ⟨hc, hmin⟩
    refine ⟨.inr hc, fun d hd hdc => ?_⟩
    rcases hd with rfl | hd
    · -- the set that covers `d` is below `c`, hence it is `c`
      obtain ⟨b, hb, hbd⟩ := h
      have hcb := hmin b hb (LiteralSet.subset_trans hbd hdc)
      exact LiteralSet.subset_antisymm (hcb ▸ hbd) hdc
    · exact hmin d hd hdc

/-- One set more pushes out what it subsumes if it is not covered. -/
theorem minimals_insert_of_not_covered (h : ¬Covered X s) :
    minimals (insert s X) = insert s {c | c ∈ minimals X ∧ ¬s ⊆ c} := by
  ext c
  rw [mem_minimals]
  constructor
  · rintro ⟨rfl | hc, hmin⟩
    · exact .inl rfl
    · refine .inr ⟨mem_minimals.2 ⟨hc, fun d hd => hmin d (.inr hd)⟩, fun hsc => h ?_⟩
      rw [← hmin s (.inl rfl) hsc]
      exact covered_of_mem hc
  · rintro (rfl | ⟨hc, hns⟩)
    · refine ⟨.inl rfl, fun d hd hdc => ?_⟩
      rcases hd with rfl | hd
      · rfl
      · exact absurd ⟨d, hd, hdc⟩ h
    · refine ⟨.inr (minimals_subset hc), fun d hd hdc => ?_⟩
      rcases hd with rfl | hd
      · exact absurd hdc hns
      · exact (mem_minimals.1 hc).2 d hd hdc

end Minimals

/-- A collection without tautologies, without the empty set and without subsumption. -/
structure Irredundant (X : Set LiteralSet) : Prop where
  antichain : IsAntichain (· ⊆ ·) X
  proper : ∀ s ∈ X, s.isTautology = false
  nonempty : .empty ∉ X

theorem Irredundant.subset {X Y : Set LiteralSet} (h : Irredundant Y) (hXY : X ⊆ Y) : Irredundant X :=
  ⟨h.antichain.subset hXY, fun s hs => h.proper s (hXY hs), fun he => h.nonempty (hXY he)⟩

theorem irredundant_minimals {X : Set LiteralSet} (hproper : ∀ s ∈ X, s.isTautology = false)
    (hnonempty : .empty ∉ X) : Irredundant (minimals X) :=
  ⟨isAntichain_minimals, fun s hs => hproper s (minimals_subset hs),
    fun he => hnonempty (minimals_subset he)⟩

end Clausal
