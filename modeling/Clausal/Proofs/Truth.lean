import Clausal.Proofs.Subsumption
import Clausal.Resolution
import Mathlib.Data.Set.Basic

/-!
# Truth

A literal set is read as a disjunction, a collection of literal sets as a conjunction.

* `Literal.value`, `LiteralSet.value`: the truth value under an assignment of the atoms;
* `Models v X`: the assignment `v` makes every set of `X` true;
* `value_resolvent`: what makes two sets true makes their resolvent true;
* `negation`: the unit sets that say together that a set is false (`models_negation`).
-/

namespace Clausal

/-- A truth value for every atom. -/
abbrev Assignment := String → Bool

/-! ## Literals -/

namespace Literal

/-- The truth value of a literal. -/
def value (v : Assignment) (l : Literal) : Bool := v l.atom != l.negated

@[simp] theorem value_complement (v : Assignment) (l : Literal) :
    l.complement.value v = !l.value v := by
  unfold value complement
  cases v l.atom <;> cases l.negated <;> rfl

theorem value_congr {v w : Assignment} {l : Literal} (h : v l.atom = w l.atom) :
    l.value v = l.value w := by
  unfold value
  rw [h]

/-- Two literals of one atom are complementary as soon as one is true and the other is false. -/
theorem eq_complement_of_value {v : Assignment} {l m : Literal} (ha : m.atom = l.atom)
    (hl : l.value v = true) (hm : m.value v = false) : m = l.complement := by
  obtain ⟨a, s⟩ := l
  obtain ⟨b, t⟩ := m
  have hb : b = a := ha
  subst hb
  unfold value at hl hm
  cases s <;> cases t <;> simp_all [complement]

end Literal

/-! ## Literal sets -/

namespace LiteralSet

variable {v : Assignment} {s t : LiteralSet} {l : Literal}

/-- The truth value of a set, which is true if one of its literals is. -/
def value (v : Assignment) (s : LiteralSet) : Bool := s.toList.any (Literal.value v)

theorem value_eq_true_iff : s.value v = true ↔ ∃ l, l ∈ s ∧ l.value v = true := by
  simp [value, mem_toList]

theorem value_eq_false_iff : s.value v = false ↔ ∀ l, l ∈ s → l.value v = false := by
  simp [value, mem_toList]

@[simp] theorem value_empty : empty.value v = false := rfl

@[simp] theorem value_singleton : (singleton l).value v = l.value v := by
  simp [value, singleton]

theorem value_mono (h : s ⊆ t) (hs : s.value v = true) : t.value v = true := by
  obtain ⟨l, hl, hv⟩ := value_eq_true_iff.1 hs
  exact value_eq_true_iff.2 ⟨l, h l hl, hv⟩

theorem value_eq_false_of_subset (h : s ⊆ t) (ht : t.value v = false) : s.value v = false :=
  value_eq_false_iff.2 fun l hl => value_eq_false_iff.1 ht l (h l hl)

theorem isTautology_of_value_eq_false (h : s.value v = false) : s.isTautology = false := by
  rw [Bool.eq_false_iff]
  intro ht
  obtain ⟨l, hl, hc⟩ := isTautology_iff.1 ht
  have h1 := value_eq_false_iff.1 h l hl
  have h2 := value_eq_false_iff.1 h _ hc
  rw [Literal.value_complement, h1] at h2
  cases h2

/-- **Resolution is sound.**  What makes two sets true makes their resolvent true: the clashing literals
cannot both be true. -/
theorem value_resolvent (hs : s.value v = true) (ht : t.value v = true) :
    (s.resolvent t l).value v = true := by
  obtain ⟨m, hm, hmv⟩ := value_eq_true_iff.1 hs
  obtain ⟨n, hn, hnv⟩ := value_eq_true_iff.1 ht
  by_cases hml : m = l
  · refine value_eq_true_iff.2 ⟨n, mem_resolvent.2 (.inr ⟨hn, ?_⟩), hnv⟩
    rintro rfl
    rw [Literal.value_complement, ← hml, hmv] at hnv
    cases hnv
  · exact value_eq_true_iff.2 ⟨m, mem_resolvent.2 (.inl ⟨hm, hml⟩), hmv⟩

theorem value_resolvent_eq_false (hs : ∀ m, m ∈ s → m ≠ l → m.value v = false)
    (ht : ∀ m, m ∈ t → m ≠ l.complement → m.value v = false) :
    (s.resolvent t l).value v = false := by
  refine value_eq_false_iff.2 fun m hm => ?_
  rcases mem_resolvent.1 hm with ⟨hm, hne⟩ | ⟨hm, hne⟩
  · exact hs m hm hne
  · exact ht m hm hne

theorem resolvent_comm : s.resolvent t l = t.resolvent s l.complement := by
  ext m
  simp [or_comm]

end LiteralSet

/-! ## Collections of literal sets -/

/-- The assignment makes all of the sets true. -/
def Models (v : Assignment) (X : Set LiteralSet) : Prop := ∀ s ∈ X, s.value v = true

/-- The unit sets of the complements of the literals of a set. -/
def negation (s : LiteralSet) : Set LiteralSet := {u | ∃ l, l ∈ s ∧ u = .singleton l.complement}

theorem models_negation {v : Assignment} {s : LiteralSet} :
    Models v (negation s) ↔ s.value v = false := by
  rw [LiteralSet.value_eq_false_iff]
  constructor
  · intro h l hl
    have := h _ ⟨l, hl, rfl⟩
    simpa using this
  · rintro h u ⟨l, hl, rfl⟩
    simpa using h l hl

/-- Every assignment that makes all of the sets true makes the set true. -/
def Entails (X : Set LiteralSet) (s : LiteralSet) : Prop := ∀ v, Models v X → s.value v = true

theorem not_entails_iff {X : Set LiteralSet} {s : LiteralSet} :
    ¬Entails X s ↔ ∃ v, Models v X ∧ Models v (negation s) := by
  simp only [Entails, models_negation]
  push Not
  simp only [ne_eq, Bool.not_eq_true]

end Clausal
