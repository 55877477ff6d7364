import Clausal.Proofs.Growth
import Clausal.Proofs.Walk

/-!
# What resolving by hand links

The resolvents of two clauses name the positions of their parents.  A clause of the knowledge base keeps the position
that it was given, and a position says nothing about the derivation in which it was given.  So the links are right as
long as the clauses were registered in the present derivation, or in none, and may be wrong after a run, which begins a
new one.

* `Clause.ShownIn c d`: the derivation `d` shows the literals of the clause wherever the clause says that it stands;
* `Engine.Shown`: so it is with the knowledge base, at any moment (`Engine.invariant_shown`);
* `Engine.linked_resolve`: what is known of the resolvents that a call returns.
-/

namespace Clausal

/-! ## What a derivation shows -/

namespace Derivation

variable {d : Derivation} {c : Clause} {places : List Place}

/-- The literals of the clauses that are registered, in order. -/
def keys (d : Derivation) : List LiteralSet := d.toList.map Clause.literals

theorem getElem?_keys {i : Nat} {s : LiteralSet} :
    d.keys[i]? = some s ↔ ∃ c, d.toList[i]? = some c ∧ c.literals = s := by
  rw [keys, List.getElem?_map, Option.map_eq_some_iff]

/-- To show a clause anew where its literals stand changes no literals. -/
theorem keys_refresh (h : ∀ p ∈ places, p.derivation = d.number → d.keys[p.position]? = some c.literals) :
    (d.refresh places c).keys = d.keys := by
  have hfold : ∀ clauses : Array Clause, clauses.toList.map Clause.literals = d.keys →
      (places.foldl (fun clauses place =>
        if place.derivation = d.number then clauses.setIfInBounds place.position c else clauses)
        clauses).toList.map Clause.literals = d.keys := by
    induction places with
    | nil => exact fun clauses hclauses => hclauses
    | cons place places ih =>
      intro clauses hclauses
      rw [List.foldl_cons]
      apply ih fun p hp => h p (by simp [hp])
      split
      · rename_i hplace
        have hsame := h place (by simp) hplace
        rw [Array.toList_setIfInBounds, List.map_set, hclauses]
        obtain ⟨hi, heq⟩ := List.getElem?_eq_some_iff.1 hsame
        rw [← heq, List.set_getElem_self]
      · exact hclauses
  exact hfold d.clauses rfl

end Derivation

namespace Clause

variable {c : Clause} {d d' : Derivation}

/-- The clause has places only in the derivation `d` and those before it, and where it stands in `d` its literals are
shown. -/
def ShownIn (c : Clause) (d : Derivation) : Prop :=
  ∀ p ∈ c.places, p.derivation ≤ d.number ∧ (p.derivation = d.number → d.keys[p.position]? = some c.literals)

/-- The clause was registered last in the derivation `d`, if it was registered at all. -/
def Current (c : Clause) (d : Derivation) : Prop := ∀ p ∈ c.places.head?, p.derivation = d.number

theorem shownIn_of_places (h : c.places = []) (d : Derivation) : c.ShownIn d := by
  intro p hp
  simp [h] at hp

theorem current_of_places (h : c.places = []) (d : Derivation) : c.Current d := by
  intro p hp
  simp [h] at hp

theorem ShownIn.append (h : c.ShownIn d) {new : List Clause} (hnumber : d'.number = d.number)
    (hd : d'.toList = d.toList ++ new) : c.ShownIn d' := by
  intro p hp
  obtain ⟨hle, hshown⟩ := h p hp
  refine ⟨by omega, fun hpd => ?_⟩
  rw [Derivation.keys, hd, List.map_append]
  exact getElem?_append_of_some _ (hshown (by omega))

/-- The position of a clause is one where its literals are shown, if it was registered last in the derivation. -/
theorem Current.exists_position (h : c.Current d) (hs : c.ShownIn d) (hplaces : c.places ≠ []) :
    ∃ (i : Nat) (p : Clause), c.index = i ∧ d.toList[i]? = some p ∧ p.literals = c.literals := by
  obtain ⟨place, places, hc⟩ := List.exists_cons_of_ne_nil hplaces
  have hindex : c.index = place.position := by simp [index, index?, hc]
  have hshown := (hs place (by simp [hc])).2 (h place (by simp [hc]))
  obtain ⟨p, hp, hliterals⟩ := Derivation.getElem?_keys.1 hshown
  exact ⟨place.position, p, hindex, hp, hliterals⟩

end Clause

namespace Engine

variable {e e' : Engine} {c d : Clause}

theorem toList_register_of_places (e : Engine) (h : c.places = []) :
    (e.register c).2.derivation.toList = e.derivation.toList ++ [(e.register c).1] :=
  Derivation.toList_register h

/-- A clause that was in no derivation is shown where it is registered. -/
theorem shownIn_register (e : Engine) (h : c.places = []) : (e.register c).1.ShownIn (e.register c).2.derivation := by
  intro p hp
  rw [places_register e h, List.mem_singleton] at hp
  subst hp
  refine ⟨le_refl _, fun _ => ?_⟩
  rw [Derivation.keys, toList_register_of_places e h, Derivation.nextPlace, Derivation.size_eq]
  simp

/-- The derivations before the present one are all kept, the clauses of the knowledge base are shown, and those of the
support have places only in derivations that exist. -/
structure Shown (e : Engine) : Prop where
  earlier : e.earlier.size = e.derivation.number
  knowledge : ∀ c ∈ e.knowledge.toList, c.ShownIn e.derivation
  support : ∀ c ∈ e.support.toList, ∀ p ∈ c.places, p.derivation ≤ e.derivation.number

theorem Shown.archived (h : e.Shown) : e.Archived :=
  ⟨h.earlier, fun c hc p hp => (h.knowledge c hc p hp).1⟩

/-- The derivation grows. -/
theorem Shown.grow (h : e.Shown) {new : List Clause} (hearlier : e'.earlier.size = e.earlier.size)
    (hnumber : e'.derivation.number = e.derivation.number)
    (hd : e'.derivation.toList = e.derivation.toList ++ new) (hknowledge : e'.knowledge = e.knowledge)
    (hsupport : ∀ c ∈ e'.support.toList, ∀ p ∈ c.places, p.derivation ≤ e.derivation.number) : e'.Shown := by
  refine ⟨by rw [hearlier, hnumber, h.earlier], fun c hc => ?_, by rwa [hnumber]⟩
  rw [hknowledge] at hc
  exact (h.knowledge c hc).append hnumber hd

theorem Shown.register (h : e.Shown) (hplaces : c.places = []) : (e.register c).2.Shown :=
  h.grow (registers_register e c).earlier rfl (toList_register_of_places e hplaces) rfl h.support

theorem kept_shown : Kept Shown where
  add {e} text h := by
    refine ⟨?_, fun c hc => ?_, ?_⟩
    · rw [add_frame]
      exact h.earlier
    · rw [add_frame]
      rcases mem_knowledge_add hc with hc | hplaces
      · exact h.knowledge c hc
      · exact Clause.shownIn_of_places hplaces _
    · rw [add_frame]
      exact h.support
  remove h hremove := by
    obtain ⟨c, -, rfl⟩ := remove_eq_ok_iff.1 hremove
    exact ⟨h.earlier, fun b hb => h.knowledge b (List.mem_of_mem_filter hb), h.support⟩
  setGoal h hgoal := by
    obtain ⟨c, -, rfl⟩ := setGoal_eq_ok_iff.1 hgoal
    refine ⟨h.earlier, h.knowledge, fun b hb p hp => ?_⟩
    rw [toList_support_aim] at hb
    simp [(places_negationUnits hb).2] at hp
  count h _ := ⟨h.earlier, h.knowledge, h.support⟩
  register h hplaces := h.register hplaces
  enlistKnown {e c} h _ hplaces := by
    have hregister := h.register hplaces
    refine ⟨hregister.earlier, fun b hb => ?_, hregister.support⟩
    rcases ClauseTable.mem_or_eq_of_mem_put hb with hb | rfl
    · exact hregister.knowledge b hb
    · exact shownIn_register e hplaces
  enlistSupport {e c} h _ hplaces := by
    have hregister := h.register hplaces
    refine ⟨hregister.earlier, hregister.knowledge, fun b hb p hp => ?_⟩
    rcases ClauseTable.mem_or_eq_of_mem_put hb with hb | rfl
    · exact hregister.support b hb p hp
    · exact (shownIn_register e hplaces p hp).1

/-! ## The end of a run -/

/-- To show clauses anew where their literals stand changes no literals. -/
theorem keys_refreshAll {cs : List Clause} (h : ∀ c ∈ cs, c.ShownIn e.derivation) :
    (cs.foldl (fun e c => e.refresh c.places c) e).derivation.keys = e.derivation.keys := by
  induction cs generalizing e with
  | nil => rfl
  | cons c cs ih =>
    have hfirst : (e.refresh c.places c).derivation.keys = e.derivation.keys :=
      Derivation.keys_refresh fun p hp => (h c (by simp) p hp).2
    rw [List.foldl_cons, ih, hfirst]
    intro b hb p hp
    rw [hfirst]
    exact h b (by simp [hb]) p hp

theorem shownIn_renumbered (next : Int) {cs : List Clause} {d : Derivation} (h : ∀ c ∈ cs, c.ShownIn d) :
    ∀ c ∈ renumbered next cs, c.ShownIn d := by
  induction cs generalizing next with
  | nil => simp [renumbered]
  | cons b cs ih =>
    intro c hc
    rcases List.mem_cons.1 hc with rfl | hc
    · exact h b (by simp)
    · exact ih _ (fun c hc => h c (by simp [hc])) c hc

theorem Shown.reset (h : e.Shown) : e.reset.Shown := by
  obtain ⟨hnumber, hearlier⟩ := frame_reset e
  have hrenumbered := shownIn_renumbered 1 h.knowledge
  have hkeys : e.reset.derivation.keys = e.derivation.keys := keys_refreshAll hrenumbered
  refine ⟨by rw [hearlier, hnumber, h.earlier], fun c hc p hp => ?_, by simp [Engine.reset]⟩
  rw [toList_knowledge_reset] at hc
  rw [hnumber, hkeys]
  exact hrenumbered c hc p hp

/-! ## The beginning of a run -/

/-- What is registered keeps its places and has one more. -/
theorem exists_of_mem_registerAll {cs : List Clause} (hc : c ∈ (e.registerAll cs).1) :
    ∃ b ∈ cs, ∃ i, c.places = ⟨e.derivation.number, i⟩ :: b.places := by
  induction cs generalizing e with
  | nil => simp [registerAll] at hc
  | cons d cs ih =>
    rw [registerAll_cons] at hc
    rcases List.mem_cons.1 hc with rfl | hc
    · exact ⟨d, by simp, _, rfl⟩
    · obtain ⟨b, hb, i, hplaces⟩ := ih hc
      exact ⟨b, by simp [hb], i, hplaces⟩

theorem exists_of_mem_support_start (hc : c ∈ e.start.2.support.toList) :
    ∃ b ∈ e.support.toList, ∃ i, c.places = ⟨e.derivation.number + 1, i⟩ :: b.places := by
  rw [start_eq] at hc
  have hmem : c ∈ e.enlisted.1 := toList_ofList_enlisted e ▸ hc
  rw [← number_copied e, ← support_copied e]
  exact exists_of_mem_registerAll hmem

/-- **What is known is shown**, at any moment. -/
theorem invariant_shown : Invariant Shown Shown where
  duringRuns := kept_shown
  betweenRuns := kept_shown
  busy_of_idle h := h
  fresh := ⟨rfl, by simp, by simp⟩
  start {e} h := by
    obtain ⟨hknowledge, hnumber, hearlier⟩ := frame_start e
    refine ⟨by rw [hearlier, hnumber, h.earlier], fun c hc p hp => ?_, fun c hc p hp => ?_⟩
    · -- the derivation of the run is new
      rw [hknowledge] at hc
      have hle := (h.knowledge c hc p hp).1
      exact ⟨by omega, fun hp => by omega⟩
    · obtain ⟨b, hb, i, hplaces⟩ := exists_of_mem_support_start hc
      rw [hnumber]
      rw [hplaces] at hp
      rcases List.mem_cons.1 hp with rfl | hp
      · exact le_refl _
      · have := h.support b hb p hp
        omega
  round {e} n h := by
    obtain ⟨new, hy⟩ := yields_round (Prod.eta (e.round n)).symm
    apply h.grow (by rw [hy.steady.earlier]) hy.steady.number hy.toList hy.steady.knowledge
    intro c hc p hp
    rcases hy.support c hc with hc | hc
    · exact h.support c hc p hp
    · obtain ⟨i, hi⟩ := List.mem_iff_getElem?.1 hc
      rw [hy.places i c hi, List.mem_singleton] at hp
      rw [hp]
  conflict c d h := Shown.register ⟨h.earlier, h.knowledge, h.support⟩ rfl
  reset h := h.reset

/-! ## Resolving -/

/-- The operand is a clause of the knowledge base, or one made for the occasion. -/
inductive Given (e : Engine) : Operand → Clause → Prop
  | known {i : Int} {c : Clause} (h : element e.knowledge.toList i = .ok c) : Given e (.knowledge i) c
  | made {c : Clause} (h : c.places = []) : Given e (.made (.ok c)) c

theorem Given.exists_source {a : Operand} (h : e.Given a c) (he : e.Shown) :
    ∃ source : Source, e.find a = .ok source ∧ source.clause = c ∧ c.ShownIn e.derivation := by
  cases h with
  | known h =>
    refine ⟨.knowledge c, ?_, rfl, he.knowledge c (mem_of_element h)⟩
    simp [find, h]
  | made h => exact ⟨.elsewhere c, rfl, rfl, Clause.shownIn_of_places h _⟩

/-- What enlisting the clause `c` brings about: it is registered at the end, unless it was registered before. -/
structure Enlisted (e : Engine) (c c' : Clause) (e' : Engine) : Prop where
  number : e'.derivation.number = e.derivation.number
  toList : ∃ new, e'.derivation.toList = e.derivation.toList ++ new
  literals : c'.literals = c.literals
  places : c'.places ≠ []
  shown : c.ShownIn e.derivation → c'.ShownIn e'.derivation
  current : c.Current e.derivation → c'.Current e'.derivation

theorem enlisted_enlist (e : Engine) (source : Source) :
    e.Enlisted source.clause (e.enlist source).1 (e.enlist source).2 := by
  unfold Engine.enlist
  cases hi : source.clause.index? with
  | some i =>
    refine ⟨rfl, ⟨[], by simp⟩, rfl, fun hplaces => ?_, fun h => h, fun h => h⟩
    rw [Clause.index?_eq_none_iff.2 hplaces] at hi
    cases hi
  | none =>
    have hplaces := Clause.index?_eq_none_iff.1 hi
    have hregister : ∀ e₁ : Engine, e₁.derivation = (e.register source.clause).2.derivation →
        e.Enlisted source.clause (e.register source.clause).1 e₁ := by
      intro e₁ he₁
      refine ⟨by rw [he₁]; rfl, ⟨_, by rw [he₁]; exact toList_register_of_places e hplaces⟩, rfl, ?_, fun _ => ?_,
        fun _ p hp => ?_⟩
      · rw [places_register e hplaces]
        simp
      · rw [he₁]
        exact shownIn_register e hplaces
      · rw [places_register e hplaces, List.head?_cons, Option.mem_some_iff] at hp
        rw [he₁, ← hp]
        rfl
    cases source <;> exact hregister _ rfl

/-- The second source after the first one has been enlisted: it is what it was, or what the first one has become. -/
theorem clause_again (first second : Source) (c : Clause) : (again first c second).clause = second.clause ∨
    ((again first c second).clause = c ∧ second.clause.literals = c.literals) := by
  cases second <;> cases first
  case knowledge.knowledge d b | support.support d b =>
    by_cases hd : d.literals = c.literals
    · exact .inr ⟨by simp [again, hd, Source.clause], hd⟩
    · exact .inl (by simp [again, hd])
  all_goals exact .inl rfl

theorem parents_of_mem_link {r : Clause} (hr : r ∈ (e.link c d).1) : r.parents = [c.index, d.index] := by
  have hmem : r.parents ∈ (e.link c d).1.map Clause.parents := List.mem_map_of_mem hr
  rw [link, map_registerAll fun _ _ => rfl] at hmem
  obtain ⟨b, hb, heq⟩ := List.mem_map.1 hmem
  rw [← heq]
  exact (Clause.mem_number hb).2.1

/-- Resolvents are registered where they say. -/
theorem get_of_mem_link {r : Clause} (hr : r ∈ (e.link c d).1) : (e.link c d).2.derivation.get r.index = .ok r := by
  obtain ⟨i, hi⟩ := List.mem_iff_getElem?.1 hr
  have hindex : r.index? = some (e.derivation.toList.length + i) := by
    have hcount : ({ e with counter := e.counter + (c.literals.leftovers d.literals).length } : Engine).derivation =
        e.derivation := rfl
    rw [← hcount]
    apply index_registerAll _ hi
    intro b hb p hp
    simp [Clause.places_number hb] at hp
  rw [Derivation.get_eq_ok_iff, Clause.index, hindex]
  show (e.link c d).2.derivation.get? ((e.derivation.toList.length + i : Nat) : Int) = some r
  rw [Derivation.get?_natCast, toList_link, List.getElem?_append_right (by omega), Nat.add_sub_cancel_left, hi]

/-- The resolvents `rs` of `c` and `d`, which a call on `e` has returned: they are registered where they say, and if
neither clause had a position from an earlier derivation, their parents have the literals of `c` and `d`. -/
structure Linked (e : Engine) (c d : Clause) (rs : List Clause) (e' : Engine) : Prop where
  registered : ∀ r ∈ rs, e'.derivation.get r.index = .ok r
  parents : c.Current e.derivation → d.Current e.derivation → ∀ r ∈ rs, ∃ p q : Clause,
    e'.derivation.parentsOf r = .ok [p, q] ∧ p.literals = c.literals ∧ q.literals = d.literals

/-- **Resolvents are linked to two registered clauses.** -/
theorem linked_link {e₁ : Engine} {c' d' : Clause} (hc : c'.literals = c.literals) (hd : d'.literals = d.literals)
    (hpositions : c.Current e.derivation → d.Current e.derivation →
      (∃ (i : Nat) (p : Clause), c'.index = i ∧ e₁.derivation.toList[i]? = some p ∧ p.literals = c'.literals) ∧
      ∃ (i : Nat) (p : Clause), d'.index = i ∧ e₁.derivation.toList[i]? = some p ∧ p.literals = d'.literals) :
    e.Linked c d (e₁.link c' d').1 (e₁.link c' d').2 := by
  refine ⟨fun r hr => get_of_mem_link hr, fun hcurrent hcurrent' r hr => ?_⟩
  obtain ⟨⟨i, p, hi, hp, hpl⟩, j, q, hj, hq, hql⟩ := hpositions hcurrent hcurrent'
  have hget : ∀ {k : Nat} {b : Clause}, e₁.derivation.toList[k]? = some b →
      (e₁.link c' d').2.derivation.get (k : Int) = .ok b := by
    intro k b hb
    rw [Derivation.get_eq_ok_iff, Derivation.get?_natCast, toList_link]
    exact getElem?_append_of_some _ hb
  refine ⟨p, q, ?_, hpl.trans hc, hql.trans hd⟩
  unfold Derivation.parentsOf
  rw [parents_of_mem_link hr, hi, hj]
  exact mapM_eq_ok_iff.2 (.cons (hget hp) (.cons (hget hq) .nil))

/-- **Every call returns resolvents that are linked** to the clauses it was given, or to the clause that it was given
twice, as far as these were registered in no earlier derivation. -/
theorem linked_resolve {a b : Operand} (h : e.Attained) (ha : e.Given a c) (hb : e.Given b d) :
    (∃ rs e', e.resolve a none = .ok (rs, e') ∧ e.Linked c c rs e') ∧
      ∃ rs e', e.resolve a (some b) = .ok (rs, e') ∧ e.Linked c d rs e' := by
  have hshown := h.idle invariant_shown
  obtain ⟨first, hfirst, rfl, hc⟩ := ha.exists_source hshown
  obtain ⟨second, hsecond, rfl, hd⟩ := hb.exists_source hshown
  have hone := enlisted_enlist e first
  constructor
  · refine ⟨_, _, by simp only [resolve, hfirst]; rfl, ?_⟩
    apply linked_link hone.literals hone.literals
    intro hcurrent _
    have hposition := (hone.current hcurrent).exists_position (hone.shown hc) hone.places
    exact ⟨hposition, hposition⟩
  · refine ⟨_, _, by simp only [resolve, hfirst, hsecond]; rfl, ?_⟩
    generalize e.enlist first = result at hone ⊢
    obtain ⟨c', e₁⟩ := result
    obtain ⟨new, hnew⟩ := hone.toList
    have htwo := enlisted_enlist e₁ (again first c' second)
    obtain ⟨more, hmore⟩ := htwo.toList
    have hagain := clause_again first second c'
    apply linked_link hone.literals
    · rcases hagain with hsame | ⟨hsame, hliterals⟩
      · exact htwo.literals.trans (by rw [hsame])
      · exact htwo.literals.trans (by rw [hsame, hliterals])
    · intro hcurrent hcurrent'
      have hleft := hone.current hcurrent
      have hsource : (again first c' second).clause.Current e₁.derivation ∧
          (again first c' second).clause.ShownIn e₁.derivation := by
        rcases hagain with hsame | ⟨hsame, -⟩
        · rw [hsame]
          exact ⟨fun p hp => (hcurrent' p hp).trans hone.number.symm, hd.append hone.number hnew⟩
        · rw [hsame]
          exact ⟨hleft, hone.shown hc⟩
      constructor
      · obtain ⟨i, p, hi, hp, hpl⟩ := hleft.exists_position (hone.shown hc) hone.places
        refine ⟨i, p, hi, ?_, hpl⟩
        rw [hmore]
        exact getElem?_append_of_some _ hp
      · exact (htwo.current hsource.1).exists_position (htwo.shown hsource.2) htwo.places

theorem linked_resolve_unit :
    let e := (({} : Engine).add "a").2
    let c : Clause := { literals := .singleton ⟨"a", false⟩, id := 1 }
    let d : Clause := { literals := .ofList [⟨"a", true⟩, ⟨"c", false⟩] }
    e.Attained ∧ e.Given (.knowledge 0) c ∧ e.Given (.made (.ok d)) d ∧ c.Current e.derivation ∧
      d.Current e.derivation ∧ ∃ rs e', e.resolve (.knowledge 0) (some (.made (.ok d))) = .ok (rs, e') ∧
        e.Linked c d rs e' := by
  intro e c d
  have h : e.Attained := ⟨[.add "a"], rfl⟩
  have hc : e.Given (.knowledge 0) c := .known rfl
  have hd : e.Given (.made (.ok d)) d := .made rfl
  exact ⟨h, hc, hd, Clause.current_of_places rfl _, Clause.current_of_places rfl _, (linked_resolve h hc hd).2⟩

/-- **A link to another clause.**  After a clause of the knowledge base has been registered, a run begins a new
derivation, which has another clause at the position that it was given. -/
theorem stale_link :
    let e := (Step.performAll [.add "b", .add "a",
      .resolve (.knowledge 1) (some (.made (Clause.parse 0 "~a v c"))), .goal "q", .run {} []] {}).2.engine
    let d : Clause := { literals := .ofList [⟨"a", true⟩, ⟨"z", false⟩] }
    e.Attained ∧ ∃ c rs e' r p q, e.Given (.knowledge 1) c ∧ e.Given (.made (.ok d)) d ∧
      e.resolve (.knowledge 1) (some (.made (.ok d))) = .ok (rs, e') ∧ r ∈ rs ∧
      e'.derivation.parentsOf r = .ok [p, q] ∧ c.literals = .singleton ⟨"a", false⟩ ∧
      p.literals = .singleton ⟨"b", false⟩ := by
  intro e d
  have h : e.Attained := ⟨_, rfl⟩
  have hknown : (element e.knowledge.toList 1).toOption.map Clause.literals = some (.singleton ⟨"a", false⟩) := by
    decide +kernel
  have hlinks : (e.resolve (.knowledge 1) (some (.made (.ok d)))).toOption.map (fun result =>
      result.1.map fun r => (result.2.derivation.parentsOf r).toOption.map (·.map Clause.literals)) =
      some [some [.singleton ⟨"b", false⟩, d.literals]] := by
    decide +kernel
  clear_value e
  cases hel : element e.knowledge.toList 1 with
  | error fault => simp [hel, Except.toOption] at hknown
  | ok c =>
    cases hres : e.resolve (.knowledge 1) (some (.made (.ok d))) with
    | error fault => simp [hres, Except.toOption] at hlinks
    | ok result =>
      obtain ⟨rs, e'⟩ := result
      simp only [hel, Except.toOption, Option.map_some, Option.some.injEq] at hknown
      simp only [hres, Except.toOption, Option.map_some, Option.some.injEq, List.map_eq_singleton_iff] at hlinks
      obtain ⟨r, rfl, hr⟩ := hlinks
      cases hparents : e'.derivation.parentsOf r with
      | error fault => simp [hparents] at hr
      | ok ps =>
        simp only [hparents, Option.map_some, Option.some.injEq] at hr
        obtain ⟨p, ps, rfl, hp, hps⟩ := List.map_eq_cons_iff.1 hr
        obtain ⟨q, rfl, -⟩ := List.map_eq_singleton_iff.1 hps
        exact ⟨h, c, [r], e', r, p, q, .known hel, .made rfl, rfl, by simp, hparents, hknown, hp⟩

end Engine

end Clausal
