import Clausal.Proofs.Start

/-!
# What rounds leave alone

Registering a clause, resolving two clauses and a whole round leave the knowledge base as it is, and they stay
within one derivation.

* `Ensures`: what is known of a loop that may stop early (`ensures_foldlM`);
* `Engine.Registers e e'`: clauses have been registered between `e` and `e'`, where a clause that was registered
  before is shown with its new place;
* `Engine.Persistent R`: what registering keeps up, and hence a round (`Persistent.round`) and a search;
* `Engine.Steady e e'`: nothing but the run itself has gone on between `e` and `e'`.
-/

namespace Clausal

/-- What a computation that may stop early ensures: of its result, or of the cause of its stop. -/
def Ensures {ε σ : Type} (P : σ → Prop) (Q : ε → Prop) : Except ε σ → Prop
  | .ok s => P s
  | .error e => Q e

theorem Ensures.imp {ε σ : Type} {P P' : σ → Prop} {Q Q' : ε → Prop} {x : Except ε σ}
    (h : Ensures P Q x) (hP : ∀ s, P s → P' s) (hQ : ∀ e, Q e → Q' e) : Ensures P' Q' x := by
  cases x with
  | ok s => exact hP s h
  | error e => exact hQ e h

theorem ensures_foldlM {ε σ α : Type} {P : σ → Prop} {Q : ε → Prop} {f : σ → α → Except ε σ}
    {as : List α} {s : σ} (hstep : ∀ a ∈ as, ∀ s, P s → Ensures P Q (f s a)) (hs : P s) :
    Ensures P Q (as.foldlM f s) := by
  induction as generalizing s with
  | nil => exact hs
  | cons a as ih =>
    have hfirst := hstep a (by simp) s hs
    rw [List.foldlM_cons]
    cases hf : f s a with
    | error e =>
      rw [hf] at hfirst
      exact hfirst
    | ok s' =>
      rw [hf] at hfirst
      exact ih (fun b hb => hstep b (by simp [hb])) hfirst

theorem Clause.index?_eq_none_iff {c : Clause} : c.index? = none ↔ c.places = [] := by
  simp [index?]

theorem Clause.places_number {parents : List Int} {next : Int} {ls : List LiteralSet} {c : Clause}
    (hc : c ∈ Clause.number parents next ls) : c.places = [] := by
  induction ls generalizing next with
  | nil => simp [Clause.number] at hc
  | cons s ls ih =>
    rw [Clause.number] at hc
    split at hc
    · exact ih hc
    · rcases List.mem_cons.1 hc with rfl | hc
      · rfl
      · exact ih hc

namespace Engine

/-! ## Registering -/

/-- Only what is in the derivations is different. -/
structure Registers (e e' : Engine) : Prop where
  counter : e'.counter = e.counter
  knowledge : e'.knowledge = e.knowledge
  support : e'.support = e.support
  working : e'.working = e.working
  number : e'.derivation.number = e.derivation.number
  earlier : e'.earlier.size = e.earlier.size

theorem Registers.refl (e : Engine) : e.Registers e := ⟨rfl, rfl, rfl, rfl, rfl, rfl⟩

theorem Registers.trans {e e₁ e₂ : Engine} (h : e.Registers e₁) (h' : e₁.Registers e₂) :
    e.Registers e₂ :=
  ⟨h'.counter.trans h.counter, h'.knowledge.trans h.knowledge, h'.support.trans h.support,
    h'.working.trans h.working, h'.number.trans h.number, h'.earlier.trans h.earlier⟩

theorem size_earlier_refresh (e : Engine) (places : List Place) (c : Clause) :
    (e.refresh places c).earlier.size = e.earlier.size := by
  have hmodify : ∀ earlier : Array Derivation, (places.foldl (fun earlier place =>
      earlier.modify place.derivation (·.refresh [place] c)) earlier).size = earlier.size := by
    induction places with
    | nil => simp
    | cons place places ih =>
      intro earlier
      rw [List.foldl_cons, ih, Array.size_modify]
  exact hmodify e.earlier

theorem registers_refresh (e : Engine) (places : List Place) (c : Clause) :
    e.Registers (e.refresh places c) :=
  ⟨rfl, rfl, rfl, rfl, rfl, size_earlier_refresh e places c⟩

theorem registers_register (e : Engine) (c : Clause) : e.Registers (e.register c).2 :=
  ⟨rfl, rfl, rfl, rfl, rfl, size_earlier_refresh e c.places _⟩

theorem registers_registerAll (e : Engine) (cs : List Clause) : e.Registers (e.registerAll cs).2 := by
  induction cs generalizing e with
  | nil => exact .refl e
  | cons c cs ih =>
    rw [registerAll_cons]
    exact (registers_register e c).trans (ih _)

theorem registers_refreshAll (e : Engine) (cs : List Clause) :
    e.Registers (cs.foldl (fun e c => e.refresh c.places c) e) := by
  induction cs generalizing e with
  | nil => exact .refl e
  | cons c cs ih => exact (registers_refresh e c.places c).trans (ih _)

/-! ## What persists in a run -/

/-- A relation between an engine and a later one of the same run.  It is kept up when a clause is registered that is in
no derivation, and the counter, the support and the working set make no difference to it. -/
structure Persistent (R : Engine → Engine → Prop) : Prop where
  refl : ∀ e, R e e
  trans : ∀ {e e₁ e₂}, R e e₁ → R e₁ e₂ → R e e₂
  register : ∀ (e : Engine) {c : Clause}, c.places = [] → R e (e.register c).2
  update : ∀ {e e'} (counter : Int) (support working : ClauseTable), R e e' →
    R e { e' with counter, support, working }

section Persistent

variable {R : Engine → Engine → Prop}

theorem Persistent.registerAll (h : Persistent R) (e : Engine) {cs : List Clause}
    (hcs : ∀ c ∈ cs, c.places = []) : R e (e.registerAll cs).2 := by
  induction cs generalizing e with
  | nil => exact h.refl e
  | cons c cs ih =>
    rw [registerAll_cons]
    have hrest := ih (e.register c).2 fun d hd => hcs d (by simp [hd])
    exact h.trans (h.register e (hcs c (by simp))) hrest

theorem Persistent.link (h : Persistent R) (e : Engine) (c d : Clause) : R e (e.link c d).2 := by
  have hcount := h.update (e.counter + (c.literals.leftovers d.literals).length) e.support e.working (h.refl e)
  exact h.trans hcount (h.registerAll _ fun r hr => Clause.places_number hr)

theorem Persistent.registerConflict (h : Persistent R) (e : Engine) (c d : Clause) :
    R e (e.registerConflict c d).2 := by
  have hcount := h.update (e.counter + 1) e.support e.working (h.refl e)
  exact h.trans hcount (h.register _ rfl)

end Persistent

end Engine

namespace Sweep

variable {R : Engine → Engine → Prop} {e : Engine}

theorem engine_consider (w : Sweep) (r : Clause) : (w.consider r).engine = w.engine := by
  unfold consider
  split
  · rfl
  · split <;> rfl

theorem engine_sift (c s : Clause) (w : Sweep) (rs : List Clause) :
    Ensures (·.engine = w.engine) (·.engine = w.engine) (w.sift c s rs) := by
  induction rs generalizing w with
  | nil => exact rfl
  | cons r rs ih =>
    rw [sift]
    split
    · exact rfl
    · have h := ih (w.consider r)
      rwa [engine_consider] at h

theorem persists_meet (hR : Engine.Persistent R) {w : Sweep} (h : R e w.engine) (s c : Clause) :
    Ensures (fun w => R e w.engine) (fun found => R e found.engine) (meet s w c) := by
  have hlink := hR.trans h (hR.link w.engine c s)
  refine (engine_sift c s { w with engine := (w.engine.link c s).2 } _).imp ?_ ?_
  · intro w' hw
    rw [hw]
    exact hlink
  · intro found hfound
    rw [hfound]
    exact hlink

theorem persists_enlist (hR : Engine.Persistent R) {w : Sweep} (h : R e w.engine) (s : Clause) :
    R e (w.enlist s).2.engine := by
  unfold enlist
  split
  · exact h
  · rename_i hnone
    have hregister := hR.trans h (hR.register w.engine (Clause.index?_eq_none_iff.1 hnone))
    exact hR.update _ _ _ hregister

theorem persists_all (hR : Engine.Persistent R) (e : Engine) :
    Ensures (fun w => R e w.engine) (fun found => R e found.engine) (Sweep.all e) := by
  refine ensures_foldlM (fun s _ w h => ?_) (hR.refl e)
  unfold pass
  split
  · exact h
  · exact ensures_foldlM (fun c _ w h => persists_meet hR h _ c) (persists_enlist hR h s)

end Sweep

namespace Engine

section Persistent

variable {R : Engine → Engine → Prop}

/-- **What registering keeps up, a round keeps up.** -/
theorem Persistent.round (h : Persistent R) (e : Engine) (n : Nat) : R e (e.round n).2 := by
  have hall := Sweep.persists_all h e
  unfold Engine.round
  cases hs : Sweep.all e with
  | error found =>
    rw [hs] at hall
    exact hall
  | ok w =>
    rw [hs] at hall
    dsimp only
    split <;> exact h.update _ _ _ hall

theorem Persistent.search (h : Persistent R) (limit pause : Option Int) (fuel : Nat) (e : Engine)
    (past : List Lap) : R e (Engine.search limit pause fuel e past).2.1 := by
  induction fuel generalizing e past with
  | zero => exact h.refl e
  | succ fuel ih =>
    have hround := h.round e (past.length + 1)
    rw [Engine.search]
    split
    · exact h.refl e
    · dsimp only
      split
      · exact hround
      · split <;> exact hround
      · split
        · exact hround
        · exact h.trans hround (ih _ _)

end Persistent

/-! ## What rounds leave alone -/

/-- The second engine has the knowledge base of the first, is in a derivation of the same number, and has the same
derivations before it. -/
structure Steady (e e' : Engine) : Prop where
  knowledge : e'.knowledge = e.knowledge
  number : e'.derivation.number = e.derivation.number
  earlier : e'.earlier = e.earlier

theorem Steady.refl (e : Engine) : e.Steady e := ⟨rfl, rfl, rfl⟩

theorem Steady.trans {e e₁ e₂ : Engine} (h : e.Steady e₁) (h' : e₁.Steady e₂) : e.Steady e₂ :=
  ⟨h'.knowledge.trans h.knowledge, h'.number.trans h.number, h'.earlier.trans h.earlier⟩

theorem persistent_steady : Persistent Steady where
  refl := .refl
  trans := .trans
  register e c hc := by
    refine ⟨rfl, rfl, ?_⟩
    simp [Engine.register, refresh, hc]
  update _ _ _ h := ⟨h.knowledge, h.number, h.earlier⟩

theorem steady_registerAll (e : Engine) (cs : List Clause) (hcs : ∀ c ∈ cs, c.places = []) :
    e.Steady (e.registerAll cs).2 := persistent_steady.registerAll e hcs

theorem steady_registerConflict (e : Engine) (c d : Clause) : e.Steady (e.registerConflict c d).2 :=
  persistent_steady.registerConflict e c d

theorem steady_round (e : Engine) (n : Nat) : e.Steady (e.round n).2 := persistent_steady.round e n

theorem steady_search (limit pause : Option Int) (fuel : Nat) (e : Engine) (past : List Lap) :
    e.Steady (search limit pause fuel e past).2.1 := persistent_steady.search limit pause fuel e past

theorem persistent_goal : Persistent fun e e' => e'.goal = e.goal where
  refl _ := rfl
  trans h h' := h'.trans h
  register _ _ _ := rfl
  update _ _ _ h := h

/-! ## The beginning and the end of a run -/

theorem frame_start (e : Engine) : e.start.2.knowledge = e.knowledge ∧
    e.start.2.derivation.number = e.derivation.number + 1 ∧
    e.start.2.earlier.size = e.earlier.size + 1 := by
  have h : e.opened.Registers e.enlisted.2 := (registers_registerAll _ _).trans (registers_registerAll _ _)
  rw [start_eq]
  exact ⟨h.knowledge, h.number, h.earlier.trans (Array.size_push _)⟩

theorem frame_reset (e : Engine) : e.reset.derivation.number = e.derivation.number ∧
    e.reset.earlier.size = e.earlier.size := by
  have h := registers_refreshAll e (renumbered 1 e.knowledge.toList)
  exact ⟨h.number, h.earlier⟩

end Engine

end Clausal
