import Clausal.Proofs.Subsumption
import Clausal.Proofs.Truth
import Mathlib.Data.Finset.Card
import Mathlib.Data.Finset.Image

/-!
# Clashes

Two sets have a candidate for a resolvent for each literal on which they clash, and a candidate that is a tautology is
dropped.  If they clash on two literals, each candidate keeps the other pair, so all of them are dropped.  What is left
of the loop over the clashes is therefore at most one resolvent.

* `LiteralSet.clashing s t`: the literals on which `s` and `t` clash;
* `Clause.number_of_not_sole`, `Clause.number_of_sole`: the resolvents of two sets that do not clash on exactly one
  literal, and of two that do;
* `Clause.resolve_at_sole_clash`: what resolving two registered clauses gives.
-/

namespace Clausal

namespace LiteralSet

variable {s t : LiteralSet} {l m : Literal}

/-- The literals of the first set whose complements are in the second. -/
def clashing (s t : LiteralSet) : Finset Literal := s.toFinset.filter fun l => l.complement ∈ t

@[simp] theorem mem_clashing : l ∈ s.clashing t ↔ l ∈ s ∧ l.complement ∈ t := by
  simp [clashing]

theorem toFinset_clashes (s t : LiteralSet) : (s.clashes t).toFinset = s.clashing t := by
  ext l
  rw [List.mem_toFinset, mem_clashes, mem_clashing]

theorem nodup_clashes (s t : LiteralSet) : (s.clashes t).Nodup := s.nodup_toList.filter _

theorem card_clashing (s t : LiteralSet) : (s.clashing t).card = (s.clashes t).length := by
  rw [← toFinset_clashes, List.toFinset_card_of_nodup (nodup_clashes s t)]

theorem length_leftovers (s t : LiteralSet) : (s.leftovers t).length = (s.clashing t).card := by
  rw [leftovers, List.length_map, card_clashing]

/-- The same pairs clash, seen from the other side. -/
theorem clashing_comm (s t : LiteralSet) : t.clashing s = (s.clashing t).image Literal.complement := by
  ext l
  rw [Finset.mem_image, mem_clashing]
  constructor
  · rintro ⟨hl, hc⟩
    refine ⟨l.complement, mem_clashing.2 ⟨hc, ?_⟩, l.complement_complement⟩
    rwa [Literal.complement_complement]
  · rintro ⟨m, hm, rfl⟩
    obtain ⟨hs, ht⟩ := mem_clashing.1 hm
    exact ⟨ht, by rwa [Literal.complement_complement]⟩

theorem card_clashing_comm (s t : LiteralSet) : (t.clashing s).card = (s.clashing t).card := by
  rw [clashing_comm, Finset.card_image_of_injective]
  exact Function.LeftInverse.injective Literal.complement_complement

theorem clashing_comm_of_sole (h : s.clashing t = {l}) : t.clashing s = {l.complement} := by
  rw [clashing_comm, h, Finset.image_singleton]

/-- A set that clashes with itself does so on a literal and on its complement. -/
theorem clashing_self_ne (s : LiteralSet) (l : Literal) : s.clashing s ≠ {l} := by
  intro h
  obtain ⟨hl, hc⟩ := mem_clashing.1 (h ▸ Finset.mem_singleton_self l)
  have hmem : l.complement ∈ s.clashing s := mem_clashing.2 ⟨hc, by rwa [Literal.complement_complement]⟩
  rw [h, Finset.mem_singleton] at hmem
  exact l.complement_ne hmem

/-! ## Tautologies among the leftovers -/

/-- **Two clashes.**  What one clash leaves holds the other pair. -/
theorem isTautology_of_two_clashes (hm : m ∈ s.clashing t) (hne : m ≠ l) : (s.resolvent t l).isTautology = true := by
  obtain ⟨hs, ht⟩ := mem_clashing.1 hm
  refine isTautology_iff.2 ⟨m, mem_resolvent.2 (.inl ⟨hs, hne⟩), mem_resolvent.2 (.inr ⟨ht, fun heq => hne ?_⟩)⟩
  rw [← m.complement_complement, heq, Literal.complement_complement]

/-- **One clash.**  What it leaves of two sets that are no tautologies is none either. -/
theorem isTautology_of_sole_clash (hs : s.isTautology = false) (ht : t.isTautology = false) (h : s.clashing t = {l}) :
    (s.resolvent t l).isTautology = false := by
  have hsole : ∀ m, m ∈ s → m.complement ∈ t → m = l := by
    intro m hm hc
    have hmem : m ∈ s.clashing t := mem_clashing.2 ⟨hm, hc⟩
    rwa [h, Finset.mem_singleton] at hmem
  rw [Bool.eq_false_iff] at hs ht ⊢
  intro htaut
  obtain ⟨m, hm, hc⟩ := isTautology_iff.1 htaut
  -- a pair inside one of the sets makes it a tautology, and a pair across them is the one that was taken out
  rcases mem_resolvent.1 hm with ⟨hm, hne⟩ | ⟨hm, hne⟩ <;> rcases mem_resolvent.1 hc with ⟨hc, hne'⟩ | ⟨hc, hne'⟩
  · exact hs (isTautology_iff.2 ⟨m, hm, hc⟩)
  · exact hne (hsole m hm hc)
  · refine hne' (hsole _ hc ?_)
    rwa [Literal.complement_complement]
  · exact ht (isTautology_iff.2 ⟨m, hm, hc⟩)

theorem clashes_of_sole (h : s.clashing t = {l}) : s.clashes t = [l] := by
  have hlength : (s.clashes t).length = 1 := by rw [← card_clashing, h, Finset.card_singleton]
  obtain ⟨m, hm⟩ := List.length_eq_one_iff.1 hlength
  have hl : l ∈ s.clashes t := by
    rw [← List.mem_toFinset, toFinset_clashes, h, Finset.mem_singleton]
  rw [hm, List.mem_singleton] at hl
  rw [hm, hl]

theorem isTautology_of_not_sole (h : ∀ l, s.clashing t ≠ {l}) {r : LiteralSet} (hr : r ∈ s.leftovers t) :
    r.isTautology = true := by
  obtain ⟨l, hl, rfl⟩ := List.mem_map.1 hr
  have hl : l ∈ s.clashing t := mem_clashing.2 (mem_clashes.1 hl)
  have hother : ∃ m ∈ s.clashing t, m ≠ l := by
    by_contra hnone
    push Not at hnone
    exact h l (Finset.eq_singleton_iff_unique_mem.2 ⟨hl, hnone⟩)
  obtain ⟨m, hm, hne⟩ := hother
  exact isTautology_of_two_clashes hm hne

end LiteralSet

/-! ## The resolvents -/

namespace Clause

variable {c d : Clause} {s t : LiteralSet} {l : Literal} {parents : List Int} {next : Int} {i j : Nat}

theorem number_of_tautologies {ls : List LiteralSet} (h : ∀ r ∈ ls, r.isTautology = true) :
    number parents next ls = [] := by
  induction ls generalizing next with
  | nil => rfl
  | cons r ls ih =>
    rw [number, if_pos (h r (by simp))]
    exact ih fun r' hr' => h r' (by simp [hr'])

theorem number_of_not_sole (h : ∀ l, s.clashing t ≠ {l}) : number parents next (s.leftovers t) = [] :=
  number_of_tautologies fun _ hr => LiteralSet.isTautology_of_not_sole h hr

theorem number_of_sole (h : s.clashing t = {l}) : number parents next (s.leftovers t) =
    if (s.resolvent t l).isTautology then [] else [{ literals := s.resolvent t l, id := next, parents }] := by
  rw [LiteralSet.leftovers, LiteralSet.clashes_of_sole h, List.map_singleton, number, number]

theorem mem_number_leftovers {r : Clause} : r ∈ number parents next (s.leftovers t) ↔
    ∃ l, s.clashing t = {l} ∧ (s.resolvent t l).isTautology = false ∧
      r = { literals := s.resolvent t l, id := next, parents } := by
  by_cases h : ∃ l, s.clashing t = {l}
  · obtain ⟨l, hl⟩ := h
    have hsole : ∀ m, s.clashing t = {m} ↔ m = l := by
      intro m
      rw [hl, Finset.singleton_inj, eq_comm]
    rw [number_of_sole hl]
    cases htaut : (s.resolvent t l).isTautology <;> simp [hsole, htaut]
  · push Not at h
    rw [number_of_not_sole h]
    simp [h]

theorem length_number_leftovers (parents : List Int) (next : Int) (s t : LiteralSet) :
    (number parents next (s.leftovers t)).length ≤ 1 := by
  by_cases h : ∃ l, s.clashing t = {l}
  · obtain ⟨l, hl⟩ := h
    rw [number_of_sole hl]
    split <;> simp
  · push Not at h
    simp [number_of_not_sole h]

/-- The two sets have the same resolvents in either order. -/
theorem literals_number_leftovers_comm (parents parents' : List Int) (next : Int) (s t : LiteralSet) :
    (number parents' next (t.leftovers s)).map literals = (number parents next (s.leftovers t)).map literals := by
  by_cases h : ∃ l, s.clashing t = {l}
  · obtain ⟨l, hl⟩ := h
    rw [number_of_sole hl, number_of_sole (LiteralSet.clashing_comm_of_sole hl), ← LiteralSet.resolvent_comm]
    split <;> rfl
  · have h' : ∀ l, t.clashing s ≠ {l} := fun l hl => h ⟨_, LiteralSet.clashing_comm_of_sole hl⟩
    push Not at h
    rw [number_of_not_sole h, number_of_not_sole h']

theorem index_of_index? (h : c.index? = some i) : c.index = i := by
  simp [index, h]

theorem resolve_of_registered (hc : c.index? = some i) (hd : d.index? = some j) (next : Int) :
    c.resolve d next = (.ok (number [c.index, d.index] next (c.literals.leftovers d.literals)),
      next + (c.literals.clashing d.literals).card) := by
  rw [index_of_index? hc, index_of_index? hd, ← LiteralSet.length_leftovers]
  simp only [resolve, hc, hd]

/-- **Resolving two registered clauses.**  Each literal on which they clash takes a number.  There is a resolvent if
they clash on one literal only and what is left is no tautology, which it cannot be if neither of the two is; it is the
only one.  A clause has no resolvent with itself, the order of the two makes no difference to literals and numbers, and
what makes both true makes the resolvent true. -/
theorem resolve_at_sole_clash (hc : c.index? = some i) (hd : d.index? = some j) (next : Int) :
    ∃ rs, c.resolve d next = (.ok rs, next + (c.literals.clashing d.literals).card) ∧ rs.length ≤ 1 ∧
      (∀ r, r ∈ rs ↔ ∃ l, c.literals.clashing d.literals = {l} ∧
        ((c.literals.erase l).union (d.literals.erase l.complement)).isTautology = false ∧
        r = { literals := (c.literals.erase l).union (d.literals.erase l.complement), id := next,
              parents := [c.index, d.index] }) ∧
      (c.isTautology = false → d.isTautology = false →
        (rs.length = 1 ↔ (c.literals.clashing d.literals).card = 1)) ∧
      (c.resolve c next).1 = .ok [] ∧
      (∃ rs', d.resolve c next = (.ok rs', next + (c.literals.clashing d.literals).card) ∧
        rs'.map literals = rs.map literals) ∧
      ∀ v : Assignment, c.literals.value v = true → d.literals.value v = true →
        ∀ r ∈ rs, r.literals.value v = true := by
  have hdc := resolve_of_registered hd hc next
  rw [LiteralSet.card_clashing_comm] at hdc
  refine ⟨_, resolve_of_registered hc hd next, length_number_leftovers _ _ _ _, fun r => mem_number_leftovers,
    fun hcproper hdproper => ?_, ?_, ⟨_, hdc, literals_number_leftovers_comm _ _ _ _ _⟩, fun v hcv hdv r hr => ?_⟩
  · rw [Finset.card_eq_one]
    by_cases h : ∃ l, c.literals.clashing d.literals = {l}
    · obtain ⟨l, hl⟩ := h
      have hproper := LiteralSet.isTautology_of_sole_clash hcproper hdproper hl
      rw [number_of_sole hl, if_neg (by simp [hproper])]
      exact iff_of_true rfl ⟨l, hl⟩
    · refine iff_of_false ?_ h
      push Not at h
      simp [number_of_not_sole h]
  · rw [resolve_of_registered hc hc, number_of_not_sole (LiteralSet.clashing_self_ne _)]
  · obtain ⟨l, -, -, rfl⟩ := mem_number_leftovers.1 hr
    exact LiteralSet.value_resolvent hcv hdv

theorem resolve_at_sole_clash_between :
    let c : Clause := { literals := .ofList [⟨"p", false⟩, ⟨"q", false⟩], places := [⟨0, 0⟩] }
    let d : Clause := { literals := .ofList [⟨"q", true⟩, ⟨"r", false⟩], places := [⟨0, 1⟩] }
    c.index? = some 0 ∧ d.index? = some 1 ∧ c.isTautology = false ∧ d.isTautology = false ∧
      ∃ r, c.resolve d 7 = (.ok [r], 8) ∧ r.id = 7 ∧ r.parents = [0, 1] ∧ (c.resolve c 7).1 = .ok [] := by
  intro c d
  have hc : c.index? = some 0 := rfl
  have hd : d.index? = some 1 := rfl
  have hcproper : c.isTautology = false := by decide +kernel
  have hdproper : d.isTautology = false := by decide +kernel
  have hcard : (c.literals.clashing d.literals).card = 1 := by decide +kernel
  obtain ⟨rs, hresolve, -, hmem, hone, hself, -⟩ := resolve_at_sole_clash hc hd 7
  obtain ⟨r, rfl⟩ := List.length_eq_one_iff.1 ((hone hcproper hdproper).2 hcard)
  obtain ⟨l, -, -, hr⟩ := (hmem r).1 (by simp)
  rw [hcard] at hresolve
  exact ⟨hc, hd, hcproper, hdproper, r, hresolve, by rw [hr], by rw [hr]; rfl, hself⟩

end Clause

end Clausal
