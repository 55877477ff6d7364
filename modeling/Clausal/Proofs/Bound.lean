import Clausal.Proofs.Saturation
import Mathlib.Data.Fintype.BigOperators

/-!
# How much there is to cover

Each atom occurs in a literal set that is no tautology in one of three ways: not at all, positively or
negatively.  A *pattern* over the atoms `A` says how each of them occurs, so that there are `3 ^ n`
patterns over `n` atoms.

The working set may shrink, but what it covers grows: every set that a round produces has a pattern that
was not covered before (`coverage_ssubset`).  So there are at most `3 ^ n` productive rounds.
-/

namespace Clausal

/-- All literals of the collection have atoms of `A`. -/
def Within (A : Finset String) (X : Set LiteralSet) : Prop := ∀ c ∈ X, ∀ l, l ∈ c → l.atom ∈ A

theorem Within.saturate {A : Finset String} {W S : Set LiteralSet} (hW : Within A W)
    (hS : Within A S) : Within A (saturate W S) := by
  intro c hc l hl
  rcases minimals_subset hc with hc | ⟨-, d, hd, s, hs, m, -, -, rfl⟩
  · exact hW c hc l hl
  · rcases LiteralSet.mem_resolvent.1 hl with h | h
    · exact hW d hd l h.1
    · exact hS s hs l h.1

/-! ## Patterns -/

/-- How each atom occurs in a set: with a sign, or not at all. -/
abbrev Pattern (A : Finset String) := A → Option Bool

/-- The literals of the set occur as the pattern says. -/
def Fits {A : Finset String} (f : Pattern A) (c : LiteralSet) : Prop :=
  ∀ l, l ∈ c → ∃ h : l.atom ∈ A, f ⟨l.atom, h⟩ = some l.negated

theorem Fits.of_subset {A : Finset String} {f : Pattern A} {c d : LiteralSet} (h : c ⊆ d)
    (hd : Fits f d) : Fits f c := fun l hl => hd l (h l hl)

/-- The pattern of a set. -/
def LiteralSet.pattern (A : Finset String) (r : LiteralSet) : Pattern A := fun a =>
  if ⟨a, false⟩ ∈ r then some false else if ⟨a, true⟩ ∈ r then some true else none

section Pattern

variable {A : Finset String} {r c : LiteralSet}

theorem fits_pattern (hA : ∀ l, l ∈ r → l.atom ∈ A) (ht : r.isTautology = false) :
    Fits (r.pattern A) r := by
  rintro ⟨a, s⟩ hl
  refine ⟨hA _ hl, ?_⟩
  unfold LiteralSet.pattern
  cases s with
  | false => rw [if_pos hl]
  | true =>
    rw [if_neg, if_pos hl]
    intro hneg
    rw [LiteralSet.isTautology_iff.2 ⟨_, hneg, hl⟩] at ht
    cases ht

theorem subset_of_fits_pattern (h : Fits (r.pattern A) c) : c ⊆ r := by
  rintro ⟨a, s⟩ hl
  obtain ⟨ha, hf⟩ := h _ hl
  unfold LiteralSet.pattern at hf
  split at hf
  · rename_i hmem
    cases hf
    exact hmem
  · split at hf
    · rename_i hmem
      cases hf
      exact hmem
    · cases hf

end Pattern

/-! ## Coverage -/

open Classical in
/-- The patterns that some set of the collection fits. -/
noncomputable def coverage (A : Finset String) (W : Set LiteralSet) : Finset (Pattern A) :=
  Finset.univ.filter fun f => ∃ c ∈ W, Fits f c

section Coverage

variable {A : Finset String} {W S : Set LiteralSet} {r : LiteralSet}

theorem mem_coverage {f : Pattern A} : f ∈ coverage A W ↔ ∃ c ∈ W, Fits f c := by
  simp [coverage]

theorem coverage_card_le (A : Finset String) (W : Set LiteralSet) :
    (coverage A W).card ≤ 3 ^ A.card := by
  have hcard : Fintype.card (Pattern A) = 3 ^ A.card := by simp [Pattern]
  rw [← hcard]
  exact Finset.card_le_univ _

/-- **What a round produces is new** also to the patterns. -/
theorem coverage_ssubset (hA : Within A (saturate W S)) (hr : r ∈ produced W S) :
    coverage A W ⊂ coverage A (saturate W S) := by
  have hsub : coverage A W ⊆ coverage A (saturate W S) := by
    intro f hf
    obtain ⟨c, hc, hfc⟩ := mem_coverage.1 hf
    obtain ⟨d, hd, hdc⟩ := covered_saturate (S := S) (covered_of_mem hc)
    exact mem_coverage.2 ⟨d, hd, hfc.of_subset hdc⟩
  refine (Finset.ssubset_iff_of_subset hsub).2 ⟨r.pattern A, ?_, ?_⟩
  · exact mem_coverage.2 ⟨r, hr.1, fits_pattern (hA r hr.1) (produced_subset_resolvents hr).1⟩
  · intro hf
    obtain ⟨c, hc, hfc⟩ := mem_coverage.1 hf
    exact not_covered_of_mem_produced hr ⟨c, hc, subset_of_fits_pattern hfc⟩

end Coverage

end Clausal
