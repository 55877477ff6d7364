import Clausal.Outcome.Proof
import Clausal.Proofs.Frame
import Mathlib.Algebra.Order.BigOperators.Group.Finset
import Mathlib.Data.Int.Interval
import Mathlib.Data.List.Sort
import Mathlib.Logic.Relation

/-!
# Walks through a derivation

From the name of a clause a walk goes to the names of its parents, of their parents and so on.  The names wait in a
queue, so that one generation comes after the other, and this is how the walk is looked at here (`Derivation.reach`).
It comes to an end in every derivation, also where clauses name themselves or each other: each generation brings a name
that was not seen before, and there are two names for each position.

* `Derivation.Leads d i j`: the name `j` is reached from `i`;
* `Derivation.visit_eq_reach`: with the queue and by generations the walk is the same;
* `Derivation.walked_reachable`: the walk finds exactly what is reached, or stops at a name that is none.
-/

namespace Clausal

/-! ## Lists of results -/

section MapM

variable {ε α β : Type} {f : α → Except ε β} {as : List α} {bs : List β}

theorem mapM_eq_ok_iff : as.mapM f = .ok bs ↔ List.Forall₂ (fun a b => f a = .ok b) as bs := by
  induction as generalizing bs with
  | nil =>
    rw [List.mapM_nil, List.forall₂_nil_left_iff]
    exact ⟨fun h => (Except.ok.inj h).symm, fun h => h ▸ rfl⟩
  | cons a as ih =>
    rw [List.mapM_cons, List.forall₂_cons_left_iff]
    cases ha : f a with
    | error x =>
      refine ⟨fun h => (by cases h), ?_⟩
      rintro ⟨b, bs', h, -⟩
      cases h
    | ok b =>
      simp only [Except.ok.injEq]
      cases has : as.mapM f with
      | error x =>
        refine ⟨fun h => (by cases h), ?_⟩
        rintro ⟨b', bs', -, h, -⟩
        rw [← ih, has] at h
        cases h
      | ok bs' =>
        constructor
        · intro h
          cases h
          exact ⟨b, bs', rfl, ih.1 has, rfl⟩
        · rintro ⟨_, bs'', rfl, h, rfl⟩
          rw [← ih, has] at h
          cases h
          rfl

theorem exists_left_of_forall₂ {α β : Type} {R : α → β → Prop} {as : List α} {bs : List β}
    (h : List.Forall₂ R as bs) {b : β} (hb : b ∈ bs) : ∃ a ∈ as, R a b := by
  induction h with
  | nil => cases hb
  | @cons a b' as bs hfirst _ ih =>
    rcases List.mem_cons.1 hb with rfl | hb
    · exact ⟨a, by simp, hfirst⟩
    · obtain ⟨a', ha', hfa⟩ := ih hb
      exact ⟨a', by simp [ha'], hfa⟩

theorem exists_arg_of_mapM (h : as.mapM f = .ok bs) {b : β} (hb : b ∈ bs) : ∃ a ∈ as, f a = .ok b :=
  exists_left_of_forall₂ (mapM_eq_ok_iff.1 h) hb

theorem exists_result_of_mapM (h : as.mapM f = .ok bs) {a : α} (ha : a ∈ as) : ∃ b ∈ bs, f a = .ok b :=
  exists_left_of_forall₂ (mapM_eq_ok_iff.1 h).flip ha

theorem exists_of_mapM_eq_error {x : ε} (h : as.mapM f = .error x) : ∃ a ∈ as, f a = .error x := by
  induction as with
  | nil => cases h
  | cons a as ih =>
    rw [List.mapM_cons] at h
    cases ha : f a with
    | error y =>
      rw [ha] at h
      cases h
      exact ⟨a, by simp, ha⟩
    | ok b =>
      rw [ha] at h
      cases has : as.mapM f with
      | error y =>
        rw [has] at h
        cases h
        obtain ⟨c, hc, hfc⟩ := ih has
        exact ⟨c, by simp [hc], hfc⟩
      | ok bs =>
        rw [has] at h
        cases h

end MapM

theorem nodup_eraseDups {α : Type} [BEq α] [LawfulBEq α] (as : List α) : as.eraseDups.Nodup := by
  induction hn : as.length using Nat.strong_induction_on generalizing as with
  | _ n ih =>
    cases as with
    | nil => simp
    | cons a as =>
      have hle := List.length_filter_le (fun b => !b == a) as
      rw [List.length_cons] at hn
      rw [List.eraseDups_cons, List.nodup_cons, List.mem_eraseDups, List.mem_filter]
      exact ⟨by simp, ih _ (by omega) _ rfl⟩

theorem eraseDups_filter {α : Type} [BEq α] [LawfulBEq α] (p : α → Bool) (as : List α) :
    (as.filter p).eraseDups = as.eraseDups.filter p := by
  induction hn : as.length using Nat.strong_induction_on generalizing as with
  | _ n ih =>
    cases as with
    | nil => simp
    | cons a as =>
      have hle := List.length_filter_le (fun b => !b == a) as
      rw [List.length_cons] at hn
      have hrest := ih _ (by omega) (as.filter fun b => !b == a) rfl
      rw [List.eraseDups_cons, List.filter_cons, List.filter_cons]
      split
      · rw [List.eraseDups_cons, ← hrest, List.filter_comm]
      · rename_i ha
        rw [← hrest, List.filter_filter]
        refine congrArg List.eraseDups (List.filter_congr fun b hb => ?_)
        by_cases hba : b = a
        · simpa [hba] using ha
        · simp [hba]

section Fresh

variable {seen frontier : List Int} {i : Int}

theorem fresh_cons_of_mem (h : i ∈ seen) :
    ((i :: frontier).eraseDups.filter fun j => !seen.contains j) =
      frontier.eraseDups.filter fun j => !seen.contains j := by
  rw [List.eraseDups_cons, eraseDups_filter, List.filter_cons_of_neg (by simpa using h), List.filter_filter]
  refine List.filter_congr fun j hj => ?_
  by_cases hji : j = i
  · simp [hji, h]
  · simp [hji]

theorem fresh_cons_of_notMem (h : i ∉ seen) :
    ((i :: frontier).eraseDups.filter fun j => !seen.contains j) =
      i :: frontier.eraseDups.filter fun j => !(seen ++ [i]).contains j := by
  rw [List.eraseDups_cons, eraseDups_filter, List.filter_cons_of_pos (by simpa using h), List.filter_filter]
  refine congrArg (i :: ·) (List.filter_congr fun j hj => ?_)
  by_cases hji : j = i
  · simp [hji]
  · simp [hji]

end Fresh

/-! ## Sorting -/

theorem insertBefore_eq_orderedInsert {α : Type} (le : α → α → Bool) (a : α) (as : List α) :
    insertBefore le a as = as.orderedInsert (le · · = true) a := by
  induction as with
  | nil => rfl
  | cons b as ih => rw [insertBefore, List.orderedInsert_cons, ih]

theorem sorted_eq_insertionSort {α : Type} (le : α → α → Bool) (as : List α) :
    sorted le as = as.insertionSort (le · · = true) := by
  induction as with
  | nil => rfl
  | cons a as ih =>
    rw [List.insertionSort_cons, ← ih, ← insertBefore_eq_orderedInsert]
    rfl

theorem sorted_perm {α : Type} (le : α → α → Bool) (as : List α) : (sorted le as).Perm as :=
  sorted_eq_insertionSort le as ▸ List.perm_insertionSort _ as

/-- What is sorted by a key stands in the order of the keys. -/
theorem pairwise_sorted_key {α : Type} (key : α → Int) (as : List α) :
    (sorted (fun a b => decide (key a ≤ key b)) as).Pairwise fun a b => key a ≤ key b := by
  have htotal : Std.Total fun a b => decide (key a ≤ key b) = true := ⟨by simpa using fun a b => le_total _ _⟩
  have htrans : IsTrans α fun a b => decide (key a ≤ key b) = true := ⟨by simpa using fun a b c => le_trans⟩
  rw [sorted_eq_insertionSort]
  exact (List.pairwise_insertionSort _ as).imp of_decide_eq_true

/-! ## Names -/

namespace Derivation

variable {d : Derivation} {i j : Int} {c : Clause}

theorem get_eq_ok_iff : d.get i = .ok c ↔ d.get? i = some c := by
  unfold get
  cases d.get? i <;> simp

theorem get_eq_error_iff {fault : Fault} :
    d.get i = .error fault ↔ d.get? i = none ∧ fault = strayPosition i := by
  unfold get
  cases d.get? i <;> simp [eq_comm]

theorem map_get?_of_mapM {names : List Int} {cs : List Clause} (h : names.mapM d.get = .ok cs) :
    names.map d.get? = cs.map some := by
  have hall := mapM_eq_ok_iff.1 h
  clear h
  induction hall with
  | nil => rfl
  | cons hget _ ih => rw [List.map_cons, List.map_cons, ih, get_eq_ok_iff.1 hget]

theorem get?_natCast (d : Derivation) (n : Nat) : d.get? n = d.toList[n]? := by
  unfold get? position? toList
  by_cases hn : n < d.clauses.size
  · rw [if_pos ⟨by omega, by simp only [size]; omega⟩]
    simp
  · have hsize : ¬((n : Int) < d.size) := by
      simp only [size]
      omega
    rw [if_neg (fun h => hsize h.2), if_neg (by omega)]
    simp [hn]

theorem get?_sub_size {n : Nat} (hn : n < d.size) : d.get? (n - d.size) = d.toList[n]? := by
  unfold get? position? toList
  have hposition : (d.size + ((n : Int) - d.size)).toNat = n := by omega
  rw [if_neg (by omega), if_pos (by omega), hposition]
  simp

theorem bounds_of_get? (h : d.get? i = some c) : -(d.size : Int) ≤ i ∧ i < d.size := by
  unfold get? position? at h
  split at h
  · omega
  · split at h
    · omega
    · cases h

/-- A derivation has two names for each position. -/
theorem length_le_of_names {names : List Int} (hnodup : names.Nodup)
    (h : ∀ j ∈ names, (d.get? j).isSome = true) : names.length ≤ 2 * d.size := by
  have hsub : names.toFinset ⊆ Finset.Ico (-(d.size : Int)) d.size := by
    intro j hj
    obtain ⟨c, hc⟩ := Option.isSome_iff_exists.1 (h j (List.mem_toFinset.1 hj))
    exact Finset.mem_Ico.2 (bounds_of_get? hc)
  have hcard := Finset.card_le_card hsub
  rw [List.toFinset_card_of_nodup hnodup, Int.card_Ico] at hcard
  omega

/-! ## Generations -/

/-- Adds to the names seen those reached from a frontier through parents, one generation after the other, for at most
`fuel` generations.  A name outside the derivation is a fault. -/
def reach (d : Derivation) : Nat → List Int → List Int → Except Fault (List Int)
  | 0, seen, _ => .ok seen
  | fuel + 1, seen, frontier =>
    let fresh := frontier.eraseDups.filter fun i => !seen.contains i
    if fresh.isEmpty then .ok seen
    else do
      let clauses ← fresh.mapM d.get
      d.reach fuel (seen ++ fresh) (clauses.flatMap Clause.parents)

/-- The clause with the first name has the second one among its parents. -/
def Names (d : Derivation) (i j : Int) : Prop := ∃ c, d.get? i = some c ∧ j ∈ c.parents

/-- The second name is reached from the first one. -/
def Leads (d : Derivation) : Int → Int → Prop := Relation.ReflTransGen d.Names

/-- A walk in progress: what was seen and what comes next is reached from the root, and the parents of what was
seen have been seen or come next. -/
structure Walking (d : Derivation) (root : Int) (seen frontier : List Int) : Prop where
  nodup : seen.Nodup
  valid : ∀ j ∈ seen, (d.get? j).isSome = true
  sound : ∀ j ∈ seen ++ frontier, d.Leads root j
  closed : ∀ i ∈ seen, ∀ j, d.Names i j → j ∈ seen ++ frontier
  root : root ∈ seen ++ frontier

/-- What a walk finds: each name once that is reached from the root. -/
structure Walked (d : Derivation) (root : Int) (names : List Int) : Prop where
  nodup : names.Nodup
  valid : ∀ j ∈ names, (d.get? j).isSome = true
  mem_iff : ∀ j, j ∈ names ↔ d.Leads root j

variable {root : Int} {seen frontier : List Int}

/-- A walk is over when nothing new comes next. -/
theorem Walking.walked (h : d.Walking root seen frontier) (hsub : frontier ⊆ seen) :
    d.Walked root seen := by
  have hmem : ∀ j, j ∈ seen ++ frontier → j ∈ seen := fun j hj => (List.mem_append.1 hj).elim id (@hsub j)
  refine ⟨h.nodup, h.valid, fun j => ⟨fun hj => h.sound j (List.mem_append_left _ hj), fun hj => ?_⟩⟩
  induction hj with
  | refl => exact hmem root h.root
  | tail _ hnames ih => exact hmem _ (h.closed _ ih _ hnames)

/-- **One generation.** -/
theorem Walking.step (h : d.Walking root seen frontier) (clauses : List Clause) :
    let fresh := frontier.eraseDups.filter fun i => !seen.contains i
    fresh.mapM d.get = .ok clauses →
    d.Walking root (seen ++ fresh) (clauses.flatMap Clause.parents) := by
  intro fresh hmap
  have hfresh : ∀ j, j ∈ fresh ↔ j ∈ frontier ∧ j ∉ seen := by
    intro j
    simp [fresh]
  have hget : ∀ i ∈ fresh, ∃ c ∈ clauses, d.get? i = some c := by
    intro i hi
    obtain ⟨c, hc, hic⟩ := exists_result_of_mapM hmap hi
    exact ⟨c, hc, get_eq_ok_iff.1 hic⟩
  have hfrontier : ∀ j, j ∈ seen ++ frontier → j ∈ seen ++ fresh := by
    intro j hj
    by_cases hseen : j ∈ seen
    · exact List.mem_append_left _ hseen
    · have hj := (List.mem_append.1 hj).resolve_left hseen
      exact List.mem_append_right _ ((hfresh j).2 ⟨hj, hseen⟩)
  refine ⟨?_, fun j hj => ?_, fun j hj => ?_, fun i hi j hnames => ?_, ?_⟩
  · refine h.nodup.append ((nodup_eraseDups _).filter _) fun j hj hj' => ?_
    exact ((hfresh j).1 hj').2 hj
  · rcases List.mem_append.1 hj with hj | hj
    · exact h.valid j hj
    · obtain ⟨c, -, hc⟩ := hget j hj
      simp [hc]
  · have hsound : ∀ i ∈ seen ++ fresh, d.Leads root i := by
      intro i hi
      refine h.sound i (List.mem_append.2 ((List.mem_append.1 hi).imp_right fun hi => ?_))
      exact ((hfresh i).1 hi).1
    rcases List.mem_append.1 hj with hj | hj
    · exact hsound j hj
    · obtain ⟨c, hc, hjc⟩ := List.mem_flatMap.1 hj
      obtain ⟨i, hi, hic⟩ := exists_arg_of_mapM hmap hc
      exact (hsound i (List.mem_append_right _ hi)).tail ⟨c, get_eq_ok_iff.1 hic, hjc⟩
  · rcases List.mem_append.1 hi with hi | hi
    · exact List.mem_append_left _ (hfrontier j (h.closed i hi j hnames))
    · obtain ⟨c, hc, hic⟩ := hget i hi
      obtain ⟨c', hic', hjc⟩ := hnames
      obtain rfl : c = c' := Option.some.inj (hic.symm.trans hic')
      exact List.mem_append_right _ (List.mem_flatMap.2 ⟨c, hc, hjc⟩)
  · exact List.mem_append_left _ (hfrontier root h.root)

/-- **The whole walk.**  With more fuel than there are names left to see it finds all that is reached, unless it
comes to a name that is none. -/
theorem Walking.reach (h : d.Walking root seen frontier) {fuel : Nat}
    (hfuel : 2 * d.size < fuel + seen.length) :
    Ensures (d.Walked root) (fun fault => ∃ j, d.Leads root j ∧ d.get? j = none ∧ fault = strayPosition j)
      (d.reach fuel seen frontier) := by
  induction fuel generalizing seen frontier with
  | zero =>
    have := length_le_of_names h.nodup h.valid
    omega
  | succ fuel ih =>
    have hstep := h.step
    have hfresh : ∀ j ∈ frontier, j ∈ seen ∨ j ∈ frontier.eraseDups.filter fun i => !seen.contains i := by
      intro j hj
      by_cases hseen : j ∈ seen
      · exact .inl hseen
      · exact .inr (by simp [hj, hseen])
    have hfrom : ∀ j ∈ frontier.eraseDups.filter fun i => !seen.contains i, j ∈ frontier := by
      intro j hj
      exact List.mem_eraseDups.1 (List.mem_of_mem_filter hj)
    rw [Derivation.reach]
    generalize frontier.eraseDups.filter (fun i => !seen.contains i) = fresh at hstep hfresh hfrom ⊢
    dsimp only at hstep ⊢
    split
    · rename_i hnone
      refine h.walked fun j hj => (hfresh j hj).resolve_right ?_
      simp [List.isEmpty_iff.1 hnone]
    · rename_i hsome
      have hpos : 0 < fresh.length := List.length_pos_iff.2 fun hnil => hsome (by simp [hnil])
      cases hmap : fresh.mapM d.get with
      | error fault =>
        obtain ⟨j, hj, hget⟩ := exists_of_mapM_eq_error hmap
        obtain ⟨hnone, rfl⟩ := get_eq_error_iff.1 hget
        exact ⟨j, h.sound j (List.mem_append_right _ (hfrom j hj)), hnone, rfl⟩
      | ok clauses =>
        refine ih (hstep clauses hmap) ?_
        rw [List.length_append]
        omega

theorem walking_start (d : Derivation) (root : Int) : d.Walking root [] [root] := by
  refine ⟨.nil, by simp, fun j hj => ?_, by simp, by simp⟩
  obtain rfl : j = root := by simpa using hj
  exact .refl

/-! ## The queue -/

/-- A queue is taken up to some place: what is new before it is looked up, and what this brings comes to the end. -/
theorem visit_append (d : Derivation) (fuel : Nat) (seen frontier queue : List Int) :
    d.visit (fuel + frontier.length) seen (frontier ++ queue) =
      (frontier.eraseDups.filter fun i => !seen.contains i).mapM d.get >>= fun clauses =>
        d.visit fuel (seen ++ frontier.eraseDups.filter fun i => !seen.contains i)
          (queue ++ clauses.flatMap Clause.parents) := by
  induction frontier generalizing seen queue with
  | nil => simp
  | cons i frontier ih =>
    rw [List.length_cons, ← Nat.add_assoc, List.cons_append, visit]
    by_cases hi : i ∈ seen
    · rw [if_pos (by simpa using hi), ih, fresh_cons_of_mem hi]
    · rw [if_neg (by simpa using hi), fresh_cons_of_notMem hi, List.mapM_cons]
      cases hget : d.get i with
      | error fault => rfl
      | ok c =>
        show d.visit (fuel + frontier.length) (seen ++ [i]) (frontier ++ queue ++ c.parents) = _
        rw [List.append_assoc, ih]
        cases (frontier.eraseDups.filter fun j => !(seen ++ [i]).contains j).mapM d.get with
        | error fault => rfl
        | ok clauses => simp [bind, Except.bind, pure, Except.pure]

theorem visit_nil (d : Derivation) (fuel : Nat) (seen : List Int) : d.visit fuel seen [] = .ok seen := by
  cases fuel <;> rfl

/-- How many names the clause with a name brings into the queue. -/
def brings (d : Derivation) (i : Int) : Nat := ((d.get? i).map (·.parents.length)).getD 0

theorem length_brought {names : List Int} {clauses : List Clause} (h : names.mapM d.get = .ok clauses) :
    (clauses.flatMap Clause.parents).length = (names.map d.brings).sum := by
  have hbrings : names.map d.brings = clauses.map (·.parents.length) := by
    have hget := congrArg (List.map fun found : Option Clause => (found.map (·.parents.length)).getD 0)
      (map_get?_of_mapM h)
    rw [List.map_map, List.map_map] at hget
    exact hget
  rw [hbrings, List.length_flatMap]

theorem sum_range_getElem? {α : Type} (f : α → Nat) (as : List α) :
    ∑ k ∈ Finset.range as.length, (as[k]?.map f).getD 0 = (as.map f).sum := by
  induction as with
  | nil => rfl
  | cons a as ih =>
    rw [List.length_cons, Finset.sum_range_succ', List.map_cons, List.sum_cons, ← ih, Nat.add_comm]
    rfl

/-- Each clause brings its parents once for each of its two names. -/
theorem sum_brings_lt {names : List Int} (hnodup : names.Nodup) (h : ∀ j ∈ names, (d.get? j).isSome = true) :
    (names.map d.brings).sum < d.queueBound := by
  -- the names are the integers from `-d.size` on, and below `d.size`
  let shifted : Nat → Int := fun k => k - d.size
  have hsub : names.toFinset ⊆ (Finset.range (d.size + d.size)).image shifted := by
    intro j hj
    obtain ⟨c, hc⟩ := Option.isSome_iff_exists.1 (h j (List.mem_toFinset.1 hj))
    obtain ⟨hlow, hhigh⟩ := bounds_of_get? hc
    refine Finset.mem_image.2 ⟨(j + d.size).toNat, Finset.mem_range.2 (by omega), ?_⟩
    show ((j + d.size).toNat : Int) - d.size = j
    omega
  have hinjective : Set.InjOn shifted (Finset.range (d.size + d.size)) := by
    intro k _ k' _ hk
    simp only [shifted] at hk
    omega
  have hfirst : ∑ k ∈ Finset.range d.size, d.brings (shifted k) = (d.toList.flatMap Clause.parents).length := by
    rw [List.length_flatMap, ← sum_range_getElem?]
    refine Finset.sum_congr rfl fun k hk => ?_
    rw [brings, get?_sub_size (Finset.mem_range.1 hk)]
  have hsecond : ∑ k ∈ Finset.range d.size, d.brings (shifted (d.size + k)) =
      (d.toList.flatMap Clause.parents).length := by
    rw [List.length_flatMap, ← sum_range_getElem?]
    refine Finset.sum_congr rfl fun k _ => ?_
    have hname : shifted (d.size + k) = k := by
      simp only [shifted]
      omega
    rw [brings, hname, get?_natCast]
  calc (names.map d.brings).sum
      = ∑ j ∈ names.toFinset, d.brings j := (List.sum_toFinset _ hnodup).symm
    _ ≤ ∑ j ∈ (Finset.range (d.size + d.size)).image shifted, d.brings j := Finset.sum_le_sum_of_subset hsub
    _ = ∑ k ∈ Finset.range (d.size + d.size), d.brings (shifted k) := Finset.sum_image hinjective
    _ = 2 * (d.toList.flatMap Clause.parents).length := by rw [Finset.sum_range_add, hfirst, hsecond, Nat.two_mul]
    _ < d.queueBound := Nat.lt_succ_self _

/-- **With the queue and by generations the walk is the same.**  The names that wait in the queue and those that the
clauses not yet seen can bring are no more than the fuel. -/
theorem Walking.visit_eq_reach (h : d.Walking root seen frontier) {fuel generations : Nat}
    (hgenerations : 2 * d.size < generations + seen.length)
    (hfuel : frontier.length + d.queueBound ≤ fuel + (seen.map d.brings).sum + 1) :
    d.visit fuel seen frontier = d.reach generations seen frontier := by
  -- a generation is what waits in the queue when the one before it has been taken
  induction generations generalizing seen frontier fuel with
  | zero =>
    have := length_le_of_names h.nodup h.valid
    omega
  | succ generations ih =>
    have hbrings := sum_brings_lt h.nodup h.valid
    obtain ⟨fuel, rfl⟩ : ∃ n, fuel = n + frontier.length := ⟨fuel - frontier.length, by omega⟩
    have hvisit := d.visit_append fuel seen frontier []
    rw [List.append_nil] at hvisit
    have hstep := h.step
    rw [hvisit, Derivation.reach]
    generalize frontier.eraseDups.filter (fun i => !seen.contains i) = fresh at hstep ⊢
    dsimp only at hstep ⊢
    split
    · rename_i hnone
      rw [List.isEmpty_iff.1 hnone]
      exact d.visit_nil fuel _ |>.trans (by rw [List.append_nil])
    · rename_i hsome
      have hpos : 0 < fresh.length := List.length_pos_iff.2 fun hnil => hsome (by simp [hnil])
      cases hmap : fresh.mapM d.get with
      | error fault => rfl
      | ok clauses =>
        have hbrought := length_brought hmap
        refine ih (hstep clauses hmap) ?_ ?_
        · rw [List.length_append]
          omega
        · rw [hbrought, List.map_append, List.sum_append]
          omega

theorem visit_eq_reach (d : Derivation) (root : Int) {fuel generations : Nat} (hfuel : d.queueBound ≤ fuel)
    (hgenerations : 2 * d.size < generations) : d.visit fuel [] [root] = d.reach generations [] [root] := by
  refine (walking_start d root).visit_eq_reach (by simpa using hgenerations) ?_
  simp only [List.length_singleton, List.map_nil, List.sum_nil]
  omega

theorem reachable_eq_reach (d : Derivation) (root : Int) : d.reachable root = d.reach (2 * d.size + 1) [] [root] :=
  d.visit_eq_reach root le_rfl (by omega)

theorem walked_reachable (d : Derivation) (root : Int) :
    Ensures (d.Walked root) (fun fault => ∃ j, d.Leads root j ∧ d.get? j = none ∧ fault = strayPosition j)
      (d.reachable root) := by
  rw [reachable_eq_reach]
  exact (walking_start d root).reach (by simp)

/-- A walk that meets only names of positions finds them all. -/
theorem exists_reachable (h : ∀ j, d.Leads root j → (d.get? j).isSome = true) :
    ∃ names, d.reachable root = .ok names ∧ d.Walked root names := by
  have hwalk := walked_reachable d root
  cases hr : d.reachable root with
  | ok names =>
    rw [hr] at hwalk
    exact ⟨names, rfl, hwalk⟩
  | error fault =>
    rw [hr] at hwalk
    obtain ⟨j, hj, hnone, -⟩ := hwalk
    exact absurd hnone (Option.isSome_iff_ne_none.1 (h j hj))

theorem Walked.exists_clauses {names : List Int} (h : d.Walked root names) : ∃ cs, names.mapM d.get = .ok cs := by
  cases hmap : names.mapM d.get with
  | ok cs => exact ⟨cs, rfl⟩
  | error fault =>
    obtain ⟨j, hj, hget⟩ := exists_of_mapM_eq_error hmap
    exact absurd (get_eq_error_iff.1 hget).1 (Option.isSome_iff_ne_none.1 (h.valid j hj))

end Derivation

/-- The steps of a proof are the clauses with the names that the walk finds. -/
theorem Outcome.proof_eq {o : Outcome} {root : Int} {names : List Int} {cs : List Clause}
    (hproven : o.verdict = .proven root) (hnames : o.derivation.reachable root = .ok names)
    (hcs : names.mapM o.derivation.get = .ok cs) :
    o.proof = .ok (sorted (fun c d => decide (c.id ≤ d.id)) cs) := by
  unfold Outcome.proof
  rw [hproven]
  simp only [bind, Except.bind, hnames, hcs]
  rfl

end Clausal
