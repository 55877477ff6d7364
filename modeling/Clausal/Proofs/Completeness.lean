import Clausal.Proofs.Saturation
import Mathlib.Data.Finset.Card

/-!
# Completeness on consistent knowledge

At a fixpoint of the search with satisfiable knowledge there is an assignment that makes the whole working
set true (`Stage.exists_models`), and so the knowledge and the units.

The argument is semantic.  Let `v` make the knowledge true.  A set that `v` makes false is then in the
supported part, so that all its resolvents are covered.  Among the assignments that make these sets true
take one, `flipOn v D`, which differs from `v` on as few atoms `D` as possible.  If it made some set `d`
false, the atom of a literal of `d` that `v` makes true would be in `D`; as it cannot be left out of `D`,
some set false in `v` needs it, and the resolvent of that set with `d` is false as well.  The set that
covers the resolvent has fewer literals that `v` makes true, and the descent ends.
-/

namespace Clausal

/-- The assignment with other values on the atoms of a finite set. -/
def flipOn (v : Assignment) (D : Finset String) : Assignment := fun a => if a ∈ D then !v a else v a

theorem flipOn_of_mem {v : Assignment} {D : Finset String} {a : String} (h : a ∈ D) :
    flipOn v D a = !v a := if_pos h

theorem flipOn_of_notMem {v : Assignment} {D : Finset String} {a : String} (h : a ∉ D) :
    flipOn v D a = v a := if_neg h

theorem flipOn_erase_of_ne {v : Assignment} {D : Finset String} {a b : String} (h : b ≠ a) :
    flipOn v (D.erase a) b = flipOn v D b := by
  by_cases hb : b ∈ D
  · rw [flipOn_of_mem hb, flipOn_of_mem (Finset.mem_erase.2 ⟨h, hb⟩)]
  · rw [flipOn_of_notMem hb, flipOn_of_notMem fun hb' => hb (Finset.mem_of_mem_erase hb')]

namespace Literal

variable {v : Assignment} {D : Finset String} {l : Literal}

theorem value_flipOn_of_mem (h : l.atom ∈ D) : l.value (flipOn v D) = !l.value v := by
  unfold value
  rw [flipOn_of_mem h]
  cases v l.atom <;> cases l.negated <;> rfl

theorem value_flipOn_of_notMem (h : l.atom ∉ D) : l.value (flipOn v D) = l.value v :=
  value_congr (flipOn_of_notMem h)

end Literal

/-- The literals of a set that an assignment makes true. -/
def LiteralSet.truths (v : Assignment) (s : LiteralSet) : Finset Literal :=
  s.toFinset.filter (Literal.value v · = true)

theorem LiteralSet.mem_truths {v : Assignment} {s : LiteralSet} {l : Literal} :
    l ∈ s.truths v ↔ l ∈ s ∧ l.value v = true := by
  simp [truths]

/-! ## A closest assignment -/

/-- The assignment that differs from `v` on `D` makes those sets true that `v` makes false. -/
def Mends (v : Assignment) (W : Set LiteralSet) (D : Finset String) : Prop :=
  ∀ c ∈ W, c.value v = false → c.value (flipOn v D) = true

section Mends

variable {v : Assignment} {W : Set LiteralSet} {A D : Finset String}

/-- To change the values of all atoms makes all sets true that were false, but for the empty one. -/
theorem mends_of_atoms (hA : ∀ c ∈ W, ∀ l, l ∈ c → l.atom ∈ A) (hn : .empty ∉ W) : Mends v W A := by
  intro c hc hv
  have hne : ∃ l, l ∈ c := by
    by_contra h
    push Not at h
    refine hn ?_
    have he : c = .empty := LiteralSet.ext fun l => iff_of_false (h l) LiteralSet.not_mem_empty
    exact he ▸ hc
  obtain ⟨l, hl⟩ := hne
  refine LiteralSet.value_eq_true_iff.2 ⟨l, hl, ?_⟩
  rw [Literal.value_flipOn_of_mem (hA c hc l hl), LiteralSet.value_eq_false_iff.1 hv l hl]
  rfl

/-- **What an atom is flipped for.**  If `D` is minimal and `l` is a true literal of a flipped atom, there
is a false set in which only the complement of `l` becomes true. -/
theorem exists_of_minimal (hD : Minimal (Mends v W) D) {l : Literal} (hl : l.atom ∈ D)
    (hv : l.value v = true) :
    ∃ c ∈ W, c.value v = false ∧ l.complement ∈ c ∧
      ∀ m, m ∈ c → m ≠ l.complement → m.value (flipOn v D) = false := by
  have hlt : D.erase l.atom < D := Finset.erase_ssubset hl
  have hnot := hD.not_prop_of_lt hlt
  unfold Mends at hnot
  push Not at hnot
  obtain ⟨c, hc, hcv, hcf⟩ := hnot
  rw [← Bool.eq_false_iff, LiteralSet.value_eq_false_iff] at hcf
  -- among the literals of `c` only the complement of `l` has the atom of `l`
  have hother : ∀ m, m ∈ c → m ≠ l.complement → m.value (flipOn v D) = false := by
    intro m hm hne
    have ha : m.atom ≠ l.atom := by
      intro ha
      exact hne (Literal.eq_complement_of_value ha hv (LiteralSet.value_eq_false_iff.1 hcv m hm))
    rw [← Literal.value_congr (flipOn_erase_of_ne ha)]
    exact hcf m hm
  refine ⟨c, hc, hcv, ?_, hother⟩
  by_contra hlc
  have hfalse : c.value (flipOn v D) = false := by
    refine LiteralSet.value_eq_false_iff.2 fun m hm => hother m hm ?_
    rintro rfl
    exact hlc hm
  rw [hD.prop c hc hcv] at hfalse
  cases hfalse

end Mends

namespace Stage

variable {K U P W S : Set LiteralSet}

/-- At a fixpoint a closest assignment that mends the working set makes all of it true. -/
theorem models_flipOn (h : Stage K U P W S) (hp : produced W S = ∅) {v : Assignment} (hK : Models v K)
    {D : Finset String} (hD : Minimal (Mends v W) D) : Models (flipOn v D) W := by
  -- by induction on the literals that `v` makes true
  have hmain : ∀ T : Finset Literal, ∀ d ∈ W, d.truths v = T → d.value (flipOn v D) = true := by
    intro T
    induction T using Finset.strongInduction with
    | H T ih =>
      rintro d hd rfl
      by_contra hfalse
      rw [← ne_eq, ← Bool.eq_false_iff] at hfalse
      obtain ⟨l, hl, hlv⟩ : ∃ l, l ∈ d ∧ l.value v = true := by
        rw [← LiteralSet.value_eq_true_iff]
        by_contra hdv
        rw [← ne_eq, ← Bool.eq_false_iff] at hdv
        rw [hD.prop d hd hdv] at hfalse
        cases hfalse
      have hlD : l.atom ∈ D := by
        by_contra hlD
        have := LiteralSet.value_eq_false_iff.1 hfalse l hl
        rw [Literal.value_flipOn_of_notMem hlD, hlv] at this
        cases this
      obtain ⟨c, hc, hcv, hlc, hother⟩ := exists_of_minimal hD hlD hlv
      have hcP : c ∈ P := by
        by_contra hcP
        rw [hK c (h.known c hc hcP)] at hcv
        cases hcv
      -- the resolvent with `c` is false as well, and is covered
      have hrf : (d.resolvent c l).value (flipOn v D) = false :=
        LiteralSet.value_resolvent_eq_false
          (fun m hm _ => LiteralSet.value_eq_false_iff.1 hfalse m hm) hother
      have hr : d.resolvent c l ∈ resolvents W P :=
        ⟨LiteralSet.isTautology_of_value_eq_false hrf, d, hd, c, hcP, l, hl, hlc, rfl⟩
      obtain ⟨e, he, her⟩ := h.covered_of_produced_eq_empty hp hr
      have hlt : e.truths v ⊂ d.truths v := by
        refine Finset.ssubset_iff_of_subset ?_ |>.2
          ⟨l, LiteralSet.mem_truths.2 ⟨hl, hlv⟩, fun hle => ?_⟩
        · intro m hm
          obtain ⟨hm, hmv⟩ := LiteralSet.mem_truths.1 hm
          rcases LiteralSet.mem_resolvent.1 (her m hm) with ⟨hmd, -⟩ | ⟨hmc, -⟩
          · exact LiteralSet.mem_truths.2 ⟨hmd, hmv⟩
          · rw [LiteralSet.value_eq_false_iff.1 hcv m hmc] at hmv
            cases hmv
        · rcases LiteralSet.mem_resolvent.1 (her l (LiteralSet.mem_truths.1 hle).1) with h' | h'
          · exact h'.2 rfl
          · rw [LiteralSet.value_eq_false_iff.1 hcv l h'.1] at hlv
            cases hlv
      have htrue := ih _ hlt e he rfl
      rw [LiteralSet.value_eq_false_of_subset her hrf] at htrue
      cases htrue
  exact fun d hd => hmain _ d hd rfl

/-- **Completeness.**  At a fixpoint with satisfiable knowledge there is an assignment that makes both the
knowledge and the units true.  The atoms have to be finitely many. -/
theorem exists_models (h : Stage K U P W S) (hp : produced W S = ∅) {v : Assignment} (hK : Models v K)
    {A : Finset String} (hA : ∀ c ∈ W, ∀ l, l ∈ c → l.atom ∈ A) :
    ∃ w, Models w K ∧ Models w U := by
  obtain ⟨D, -, hD⟩ :=
    exists_minimal_le_of_wellFoundedLT (Mends v W) A (mends_of_atoms hA h.nonempty)
  have hW := h.models_flipOn hp hK hD
  have hcov : ∀ s, Covered W s → s.value (flipOn v D) = true := by
    rintro s ⟨c, hc, hcs⟩
    exact LiteralSet.value_mono hcs (hW c hc)
  exact ⟨flipOn v D, fun s hs => hcov s (h.coversKnown s hs),
    fun s hs => hcov s ((h.coversUnits s hs).mono h.past)⟩

end Stage

end Clausal
