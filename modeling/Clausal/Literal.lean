/-!
# Literals

A literal is an atom or its negation. Literals are ordered by atom, the positive one before the
negative one.
-/

namespace Clausal

/-- An atom or its negation. -/
structure Literal where
  atom : String
  negated : Bool
deriving DecidableEq

namespace Literal

/-- The mark in front of a negated atom. -/
def negation : Char := '~'

/-- The literal of the same atom with the opposite sign. -/
def complement (l : Literal) : Literal := ⟨l.atom, !l.negated⟩

/-- Are the two literals an atom and its negation? -/
def isComplementOf (l m : Literal) : Bool := l.atom == m.atom && l.negated != m.negated

def name (l : Literal) : String := if l.negated then negation.toString ++ l.atom else l.atom

instance : LT Literal :=
  ⟨fun l m => l.atom < m.atom ∨ (l.atom = m.atom ∧ l.negated = false ∧ m.negated = true)⟩

theorem lt_def {l m : Literal} :
    l < m ↔ l.atom < m.atom ∨ (l.atom = m.atom ∧ l.negated = false ∧ m.negated = true) := Iff.rfl

instance (l m : Literal) : Decidable (l < m) := decidable_of_iff _ lt_def.symm

theorem lt_irrefl (l : Literal) : ¬l < l := by
  rw [lt_def]
  rintro (h | ⟨-, h, h'⟩)
  · exact String.lt_irrefl _ h
  · exact absurd (h.symm.trans h') (by decide)

theorem lt_trans {l m n : Literal} (h : l < m) (h' : m < n) : l < n := by
  rw [lt_def] at h h' ⊢
  rcases h with h | ⟨ha, hl, hm⟩ <;> rcases h' with h' | ⟨ha', hm', hn⟩
  · exact .inl (String.lt_trans h h')
  · exact .inl (ha' ▸ h)
  · exact .inl (ha ▸ h')
  · simp_all

/-- Of two different literals one comes first. -/
theorem lt_of_not_lt {l m : Literal} (h : ¬l < m) (hne : l ≠ m) : m < l := by
  rw [lt_def] at h ⊢
  by_cases ha : l.atom = m.atom
  · refine .inr ⟨ha.symm, ?_⟩
    have hs : l.negated ≠ m.negated := by
      intro hs
      exact hne (by cases l; cases m; simp_all)
    cases hl : l.negated <;> cases hm : m.negated <;> simp_all
  · refine .inl ?_
    have hle : ¬l.atom < m.atom := fun h' => h (.inl h')
    exact Decidable.byContradiction fun h' =>
      ha (String.le_antisymm (String.not_lt.1 h') (String.not_lt.1 hle))

@[simp] theorem complement_complement (l : Literal) : l.complement.complement = l := by
  simp [complement]

theorem complement_ne (l : Literal) : l.complement ≠ l := by
  cases l with
  | mk atom negated => cases negated <;> simp [complement]

theorem isComplementOf_iff {l m : Literal} : l.isComplementOf m = true ↔ m = l.complement := by
  cases l with
  | mk a s => cases m with
    | mk b t =>
      have h : a = b ↔ b = a := eq_comm
      cases s <;> cases t <;> simp [isComplementOf, complement, h]

end Literal

end Clausal
