import Clausal.Proofs.Bookkeeping

/-!
# Where clauses are registered

A clause keeps the places where it has been registered, and what is shown there follows its changes.  A clause of
the knowledge base or of the support has places only in derivations that exist (`Engine.Filed`), so the derivation
of a new run is built from the clauses that the run itself registers, each at the end:

* `Engine.toList_registerAll`: what is registered goes to the end of the derivation;
* `Engine.opens_start`: a run begins with copies of the knowledge base and with the support;
* `Engine.derivation_reset`: the end of a run does not touch its derivation.
-/

namespace Clausal

/-! ## Registering -/

namespace Derivation

variable {d : Derivation} {c : Clause} {places : List Place}

theorem size_eq (d : Derivation) : d.size = d.toList.length := by
  simp [size, toList]

/-- Places of other derivations make no difference. -/
theorem refresh_of_foreign (h : ∀ p ∈ places, p.derivation ≠ d.number) : d.refresh places c = d := by
  have hfold : ∀ clauses : Array Clause, places.foldl (fun clauses place =>
      if place.derivation = d.number then clauses.setIfInBounds place.position c else clauses)
      clauses = clauses := by
    induction places with
    | nil => simp
    | cons place places ih =>
      intro clauses
      rw [List.foldl_cons, if_neg (h place (by simp)), ih fun p hp => h p (by simp [hp])]
  unfold refresh
  rw [hfold]

theorem toList_register_of_foreign (h : ∀ p ∈ c.places, p.derivation ≠ d.number) :
    (d.register c).toList = d.toList ++ [d.placed c] := by
  simp [register, refresh_of_foreign h, toList]

end Derivation

namespace Engine

section RegisterAll

variable {e : Engine} {cs : List Clause}

theorem toList_registerAll (h : ∀ c ∈ cs, ∀ p ∈ c.places, p.derivation ≠ e.derivation.number) :
    (e.registerAll cs).2.derivation.toList = e.derivation.toList ++ (e.registerAll cs).1 := by
  induction cs generalizing e with
  | nil => simp [registerAll]
  | cons c cs ih =>
    have hfirst : (e.register c).2.derivation.toList = e.derivation.toList ++ [(e.register c).1] :=
      Derivation.toList_register_of_foreign (h c (by simp))
    have hnumber := (registers_register e c).number
    rw [registerAll_cons, ih, hfirst, List.append_assoc, List.singleton_append]
    rw [hnumber]
    exact fun d hd => h d (by simp [hd])

/-- A clause knows where it has been registered. -/
theorem index_registerAll (h : ∀ c ∈ cs, ∀ p ∈ c.places, p.derivation ≠ e.derivation.number)
    {i : Nat} {c : Clause} (hc : (e.registerAll cs).1[i]? = some c) :
    c.index? = some (e.derivation.toList.length + i) := by
  induction cs generalizing e i with
  | nil => simp [registerAll] at hc
  | cons d cs ih =>
    have hfirst : (e.register d).2.derivation.toList = e.derivation.toList ++ [(e.register d).1] :=
      Derivation.toList_register_of_foreign (h d (by simp))
    rw [registerAll_cons] at hc
    cases i with
    | zero =>
      cases hc
      rw [← Derivation.size_eq]
      rfl
    | succ i =>
      have hnumber := (registers_register e d).number
      rw [ih (by rw [hnumber]; exact fun c hc => h c (by simp [hc])) hc, hfirst]
      simp
      omega

end RegisterAll

/-! ## Places that exist -/

/-- The derivations before the present one are all kept, and the clauses of the knowledge base have places only in
derivations that exist. -/
structure Archived (e : Engine) : Prop where
  earlier : e.earlier.size = e.derivation.number
  knowledge : ∀ c ∈ e.knowledge.toList, ∀ p ∈ c.places, p.derivation ≤ e.derivation.number

/-- So it is with the clauses of the support, which are asserted. -/
structure Filed (e : Engine) : Prop extends Archived e where
  support : ∀ c ∈ e.support.toList, c.parents = [] ∧ ∀ p ∈ c.places, p.derivation ≤ e.derivation.number

end Engine

namespace ClauseTable

variable {t u : ClauseTable} {c d : Clause} {cs : List Clause}

theorem mem_or_eq_of_mem_put (h : d ∈ (t.put c).toList) : d ∈ t.toList ∨ d = c := by
  cases hc : t.contains c.literals with
  | false =>
    rw [toList_put_of_new hc] at h
    simpa using h
  | true =>
    rw [toList_put_of_contains hc] at h
    obtain ⟨b, hb, rfl⟩ := List.mem_map.1 h
    split
    · exact .inr rfl
    · exact .inl hb

theorem mem_or_mem_of_mem_putAll (h : d ∈ (t.putAll cs).toList) : d ∈ t.toList ∨ d ∈ cs := by
  induction cs generalizing t with
  | nil => exact .inl h
  | cons c cs ih =>
    have hstep : t.putAll (c :: cs) = (t.put c).putAll cs := rfl
    rw [hstep] at h
    rcases ih h with hd | hd
    · rcases mem_or_eq_of_mem_put hd with hd | rfl
      · exact .inl hd
      · exact .inr (by simp)
    · exact .inr (by simp [hd])

theorem mem_of_mem_ofList (h : d ∈ (ofList cs).toList) : d ∈ cs :=
  (mem_or_mem_of_mem_putAll h).resolve_left (by simp)

theorem mem_of_mem_foldl_erase
    (h : d ∈ (cs.foldl (fun t c => t.erase c.literals) t).toList) : d ∈ t.toList := by
  induction cs generalizing t with
  | nil => exact h
  | cons c cs ih => exact List.mem_of_mem_filter (ih h)

theorem mem_or_eq_of_absorb {out : List Clause} (h : t.absorb c = some (out, u)) (hd : d ∈ u.toList) :
    d ∈ t.toList ∨ d = c := by
  rw [(toList_of_absorb h).2] at hd
  rcases List.mem_append.1 hd with hd | hd
  · exact .inl (List.mem_of_mem_filter hd)
  · exact .inr (List.mem_singleton.1 hd)

end ClauseTable

namespace Engine

theorem mem_knowledge_learn {e : Engine} {c d : Clause} (h : d ∈ (e.learn c).knowledge.toList) :
    d ∈ e.knowledge.toList ∨ d = c := by
  unfold learn at h
  split at h
  · exact .inl h
  · split at h
    · exact .inl h
    · rename_i habs
      exact ClauseTable.mem_or_eq_of_absorb habs h

/-- A clause that is added is in no derivation. -/
theorem mem_knowledge_add {e : Engine} {text : String} {d : Clause} (h : d ∈ (e.add text).2.knowledge.toList) :
    d ∈ e.knowledge.toList ∨ d.places = [] := by
  unfold Engine.add at h
  split at h
  · exact .inl h
  · rename_i c hparse
    rcases mem_knowledge_learn h with hd | rfl
    · exact .inl hd
    · exact .inr (Clause.id_of_parse hparse).2.2

section Archived

variable {e e' : Engine} {c : Clause} {text : String}

theorem Archived.add (h : e.Archived) (text : String) : (e.add text).2.Archived := by
  refine ⟨?_, fun b hb => ?_⟩
  · rw [add_frame]
    exact h.earlier
  · rw [add_frame]
    rcases mem_knowledge_add hb with hb | hplaces
    · exact h.knowledge b hb
    · simp [hplaces]

theorem places_negationUnits {next : Int} {ls : List Literal} (hc : c ∈ negationUnits next ls) :
    c.parents = [] ∧ c.places = [] := by
  induction ls generalizing next with
  | nil => simp [negationUnits] at hc
  | cons l ls ih =>
    rcases List.mem_cons.1 hc with rfl | hc
    · exact ⟨rfl, rfl⟩
    · exact ih hc

theorem places_register (e : Engine) (hc : c.places = []) :
    (e.register c).1.places = [e.derivation.nextPlace] := by
  simp [register, Derivation.placed, hc]

theorem kept_archived : Kept Archived where
  add text h := h.add text
  remove h hremove := by
    obtain ⟨c, -, rfl⟩ := remove_eq_ok_iff.1 hremove
    exact ⟨h.earlier, fun b hb => h.knowledge b (List.mem_of_mem_filter hb)⟩
  setGoal h hgoal := by
    obtain ⟨c, -, rfl⟩ := setGoal_eq_ok_iff.1 hgoal
    exact ⟨h.earlier, h.knowledge⟩
  count h _ := ⟨h.earlier, h.knowledge⟩
  register {e c} h _ := ⟨(registers_register e c).earlier.trans h.earlier, h.knowledge⟩
  enlistKnown {e c} h _ hplaces := by
    refine ⟨(registers_register e c).earlier.trans h.earlier, fun b hb => ?_⟩
    rcases ClauseTable.mem_or_eq_of_mem_put hb with hb | rfl
    · exact h.knowledge b hb
    · rw [places_register e hplaces]
      simp [Derivation.nextPlace, Engine.register, Derivation.register, Derivation.refresh]
  enlistSupport {e c} h _ _ := ⟨(registers_register e c).earlier.trans h.earlier, h.knowledge⟩

/-- The negation of a goal is in no derivation. -/
theorem Archived.aim (h : e.Archived) (goal : Clause) : (e.aim goal).Filed := by
  refine ⟨⟨h.earlier, h.knowledge⟩, fun b hb => ?_⟩
  rw [toList_support_aim] at hb
  obtain ⟨hparents, hplaces⟩ := places_negationUnits hb
  simp [hparents, hplaces]

theorem kept_filed : Kept Filed where
  add {e} text h := by
    refine ⟨h.toArchived.add text, ?_⟩
    rw [add_frame]
    exact h.support
  remove h hremove := by
    refine ⟨kept_archived.remove h.toArchived hremove, ?_⟩
    obtain ⟨c, -, rfl⟩ := remove_eq_ok_iff.1 hremove
    exact h.support
  setGoal h hgoal := by
    obtain ⟨c, -, rfl⟩ := setGoal_eq_ok_iff.1 hgoal
    exact h.toArchived.aim c
  count h hn := ⟨kept_archived.count h.toArchived hn, h.support⟩
  register h hplaces := ⟨kept_archived.register h.toArchived hplaces, h.support⟩
  enlistKnown h hc hplaces := ⟨kept_archived.enlistKnown h.toArchived hc hplaces, h.support⟩
  enlistSupport {e c} h hc hplaces := by
    refine ⟨kept_archived.enlistSupport h.toArchived hc hplaces, fun b hb => ?_⟩
    rcases ClauseTable.mem_or_eq_of_mem_put hb with hb | rfl
    · exact h.support b hb
    · refine ⟨(h.support c hc).1, ?_⟩
      rw [places_register e hplaces]
      simp [Derivation.nextPlace, Engine.register, Derivation.register, Derivation.refresh]

theorem Archived.of_steady (h : e.Archived) (hs : e.Steady e') : e'.Archived := by
  refine ⟨?_, ?_⟩
  · rw [hs.earlier, hs.number]
    exact h.earlier
  · rw [hs.knowledge, hs.number]
    exact h.knowledge

theorem places_renumbered {next : Int} {cs : List Clause} (hc : c ∈ renumbered next cs) :
    ∃ d ∈ cs, c.places = d.places := by
  induction cs generalizing next with
  | nil => simp [renumbered] at hc
  | cons d cs ih =>
    rcases List.mem_cons.1 hc with rfl | hc
    · exact ⟨d, by simp, rfl⟩
    · obtain ⟨b, hb, hplaces⟩ := ih hc
      exact ⟨b, by simp [hb], hplaces⟩

theorem invariant_filed : Invariant Archived Filed where
  duringRuns := kept_archived
  betweenRuns := kept_filed
  busy_of_idle h := h.toArchived
  fresh := ⟨⟨rfl, by simp⟩, by simp⟩
  start {e} h := by
    obtain ⟨hknowledge, hnumber, hearlier⟩ := frame_start e
    refine ⟨?_, fun c hc p hp => ?_⟩
    · rw [hnumber, hearlier, h.earlier]
    · rw [hknowledge] at hc
      have := h.knowledge c hc p hp
      omega
  round {e} n h := h.of_steady (steady_round e n)
  conflict {e} c d h := h.of_steady (steady_registerConflict e c d)
  reset {e} h := by
    obtain ⟨hnumber, hearlier⟩ := frame_reset e
    refine ⟨⟨?_, fun c hc p hp => ?_⟩, by simp [Engine.reset]⟩
    · rw [hnumber, hearlier, h.earlier]
    · rw [toList_knowledge_reset] at hc
      obtain ⟨d, hd, hplaces⟩ := places_renumbered hc
      rw [hnumber]
      exact h.knowledge d hd p (hplaces ▸ hp)

theorem Attained.filed (h : e.Attained) : e.Filed := h.idle invariant_filed

end Archived

/-! ## The beginning and the end of a run -/

/-- What the derivation of a run begins with: copies of the knowledge base and the support, which are asserted and
have the literals and the numbers that they had. -/
structure Opens (e : Engine) (copies : List Clause) (e₁ : Engine) : Prop where
  toList : e₁.derivation.toList = copies ++ e₁.support.toList
  index : ∀ (i : Nat) (c : Clause), e₁.derivation.toList[i]? = some c → c.index? = some i
  parents : ∀ c ∈ e₁.derivation.toList, c.parents = []
  keys : copies.map Clause.literals = e.knowledge.keys
  ids : copies.map Clause.id = e.knowledge.ids
  supportKeys : e₁.support.keys = e.support.keys
  supportIds : e₁.support.ids = e.support.ids
  working : e₁.working = e₁.support.toList.foldl (seed copies) (.ofList copies)
  counter : e₁.counter = e.counter

theorem mem_seed {copies : List Clause} {t : ClauseTable} {s c : Clause}
    (h : c ∈ (seed copies t s).toList) : c ∈ t.toList ∨ c = s :=
  (ClauseTable.mem_or_eq_of_mem_put h).imp_left ClauseTable.mem_of_mem_foldl_erase

theorem mem_foldl_seed {copies units : List Clause} {t : ClauseTable} {c : Clause}
    (h : c ∈ (units.foldl (seed copies) t).toList) : c ∈ t.toList ∨ c ∈ units := by
  induction units generalizing t with
  | nil => exact .inl h
  | cons s units ih =>
    rcases ih h with hc | hc
    · exact (mem_seed hc).imp_right fun he => by simp [he]
    · exact .inr (by simp [hc])

theorem Opens.working_subset {e e₁ : Engine} {copies : List Clause} (h : e.Opens copies e₁) :
    e₁.working.toList ⊆ e₁.derivation.toList := by
  intro c hc
  rw [h.working] at hc
  rw [h.toList, List.mem_append]
  exact (mem_foldl_seed hc).imp_left ClauseTable.mem_of_mem_ofList

section Start

variable {e : Engine} {β : Type} {f : Clause → β} {c : Clause}

theorem support_copied (e : Engine) : e.copied.2.support = e.support := (registers_registerAll _ _).support

theorem number_copied (e : Engine) : e.copied.2.derivation.number = e.derivation.number + 1 :=
  (registers_registerAll _ _).number

theorem map_copied (hf : ∀ (c : Clause) (parents : List Int) (places : List Place),
    f { c with parents, places } = f c) : e.copied.1.map f = e.knowledge.toList.map f := by
  rw [copied, map_registerAll fun c places => hf c c.parents places, bare, List.map_map]
  exact List.map_congr_left fun c _ => hf c [] []

theorem map_enlisted (hf : ∀ (c : Clause) (places : List Place), f { c with places } = f c) :
    e.enlisted.1.map f = e.support.toList.map f := by
  rw [enlisted, map_registerAll hf, support_copied]

/-- The copies are asserted, and in no derivation before. -/
theorem places_bare (hc : c ∈ e.bare) : c.parents = [] ∧ c.places = [] := by
  obtain ⟨b, -, rfl⟩ := List.mem_map.1 hc
  exact ⟨rfl, rfl⟩

theorem bare_foreign (n : Nat) : ∀ c ∈ e.bare, ∀ p ∈ c.places, p.derivation ≠ n := by
  intro c hc
  simp [(places_bare hc).2]

theorem Filed.support_foreign (h : e.Filed) :
    ∀ c ∈ e.copied.2.support.toList, ∀ p ∈ c.places, p.derivation ≠ e.copied.2.derivation.number := by
  intro c hc p hp
  rw [support_copied] at hc
  have := (h.support c hc).2 p hp
  rw [number_copied]
  omega

theorem toList_copied (e : Engine) : e.copied.2.derivation.toList = e.copied.1 :=
  toList_registerAll (bare_foreign _)

theorem Filed.toList_enlisted (h : e.Filed) : e.enlisted.2.derivation.toList = e.copied.1 ++ e.enlisted.1 := by
  rw [enlisted, toList_registerAll h.support_foreign, toList_copied]

theorem Filed.index_enlisted (h : e.Filed) (i : Nat) (hc : (e.copied.1 ++ e.enlisted.1)[i]? = some c) :
    c.index? = some i := by
  rw [List.getElem?_append] at hc
  split at hc
  · have hindex := index_registerAll (bare_foreign _) hc
    simpa [opened, Derivation.toList] using hindex
  · have hindex := index_registerAll h.support_foreign hc
    rw [toList_copied] at hindex
    rw [hindex]
    congr 1
    omega

theorem Filed.parents_enlisted (h : e.Filed) : ∀ c ∈ e.copied.1 ++ e.enlisted.1, c.parents = [] := by
  have hregister : ∀ {e : Engine} {cs : List Clause}, (∀ c ∈ cs, c.parents = []) →
      ∀ c ∈ (e.registerAll cs).1, c.parents = [] := by
    intro e cs hcs c hc
    have hmem : c.parents ∈ (e.registerAll cs).1.map Clause.parents := List.mem_map_of_mem hc
    rw [map_registerAll fun _ _ => rfl] at hmem
    obtain ⟨b, hb, heq⟩ := List.mem_map.1 hmem
    exact heq ▸ hcs b hb
  intro c hc
  rcases List.mem_append.1 hc with hc | hc
  · exact hregister (fun b hb => (places_bare hb).1) c hc
  · refine hregister (fun b hb => ?_) c hc
    rw [support_copied] at hb
    exact (h.support b hb).1

theorem toList_ofList_enlisted (e : Engine) : (ClauseTable.ofList e.enlisted.1).toList = e.enlisted.1 := by
  refine ClauseTable.toList_ofList ?_
  rw [← List.pairwise_map (f := Clause.literals), map_enlisted fun _ _ => rfl]
  exact e.support.nodup_keys

theorem opens_start (h : e.Filed) : e.Opens e.start.1 e.start.2 := by
  have hsupport : (ClauseTable.ofList e.enlisted.1).toList = e.enlisted.1 := toList_ofList_enlisted e
  have hcounter : e.enlisted.2.counter = e.counter :=
    (registers_registerAll _ _).counter.trans (registers_registerAll _ _).counter
  rw [start_eq]
  refine ⟨?_, fun i c hc => ?_, fun c hc => ?_, map_copied fun _ _ _ => rfl, map_copied fun _ _ _ => rfl, ?_, ?_, ?_,
    hcounter⟩
  · show e.enlisted.2.derivation.toList = e.copied.1 ++ (ClauseTable.ofList e.enlisted.1).toList
    rw [h.toList_enlisted, hsupport]
  · exact h.index_enlisted i (h.toList_enlisted ▸ hc)
  · exact h.parents_enlisted c (h.toList_enlisted ▸ hc)
  · show (ClauseTable.ofList e.enlisted.1).toList.map Clause.literals = _
    rw [hsupport]
    exact map_enlisted fun _ _ => rfl
  · show (ClauseTable.ofList e.enlisted.1).toList.map Clause.id = _
    rw [hsupport]
    exact map_enlisted fun _ _ => rfl
  · show e.enlisted.1.foldl _ _ = (ClauseTable.ofList e.enlisted.1).toList.foldl _ _
    rw [hsupport]

end Start

theorem derivation_refreshAll {e : Engine} {cs : List Clause}
    (h : ∀ c ∈ cs, ∀ p ∈ c.places, p.derivation ≠ e.derivation.number) :
    (cs.foldl (fun e c => e.refresh c.places c) e).derivation = e.derivation := by
  induction cs generalizing e with
  | nil => rfl
  | cons c cs ih =>
    have hfirst : (e.refresh c.places c).derivation = e.derivation :=
      Derivation.refresh_of_foreign (h c (by simp))
    rw [List.foldl_cons, ih, hfirst]
    rw [hfirst]
    exact fun d hd => h d (by simp [hd])

/-- The end of a run numbers the knowledge base anew, of which its derivation has copies. -/
theorem derivation_reset {e : Engine}
    (h : ∀ c ∈ e.knowledge.toList, ∀ p ∈ c.places, p.derivation < e.derivation.number) :
    e.reset.derivation = e.derivation := by
  refine derivation_refreshAll fun c hc p hp => ?_
  obtain ⟨d, hd, hplaces⟩ := places_renumbered hc
  have := h d hd p (hplaces ▸ hp)
  omega

end Engine

end Clausal
