import Clausal.Engine.Saved
import Clausal.Proofs.Assistants
import Clausal.Proofs.Construction
import Clausal.Proofs.Spelling

/-!
# Saved and restored engines

To save an engine is to keep the names of the clauses it knows, and to restore it is to add them again one by one.  No
clause of a knowledge base subsumes another, so that none is dropped and each goes to the end; and the numbers from 1 on
that are used up are not more than were given before.  The restored engine therefore knows the same sets in the same
order, and an assistant cannot tell it from the one that was saved (`Engine.restores_unseen`).
-/

namespace Clausal

namespace Engine

variable {e e' : Engine}

/-! ## Adding the clauses again -/

/-- A knowledge base can be built anew from texts that are read as its sets. -/
theorem Tidy.ofTexts (h : e.Tidy) {texts : List String}
    (hreads : List.Forall₂ (fun text s => Clause.parseLiterals text.toList = .ok s) texts e.knowledge.keys) :
    ∃ e₁, Engine.ofTexts texts = .ok e₁ ∧ e₁.knowledge.keys = e.knowledge.keys ∧
      e₁.knowledge.ids = numbersFrom 1 e.knowledge.toList.length ∧ e₁.counter = 1 + e.knowledge.toList.length := by
  obtain ⟨e₁, hofTexts, hbuilt⟩ := built_ofTexts hreads
  have hirredundant : Irredundant {s | s ∈ e.knowledge.keys} :=
    h.irredundant.subset fun s hs => ClauseTable.mem_keys.1 hs
  have hlist := hbuilt.knowledge
  rw [kept_of_irredundant hirredundant e.knowledge.nodup_keys] at hlist
  have hlength : e.knowledge.keys.length = e.knowledge.toList.length := List.length_map _
  refine ⟨e₁, hofTexts, ?_, ?_, ?_⟩
  · rw [ClauseTable.keys, hlist, List.map_map]
    exact List.zipIdx_map_fst 0 _
  · have hnumbers : (e.knowledge.keys.zipIdx.map Prod.snd).map (fun i : Nat => (i : Int) + 1) =
        numbersFrom 1 e.knowledge.toList.length := by
      rw [List.zipIdx_map_snd, hlength, numbersFrom, List.range_eq_range']
      simp only [add_comm]
    rw [ClauseTable.ids, hlist, List.map_map, ← hnumbers, List.map_map]
    rfl
  · rw [hbuilt.counter, hlength]
    omega

/-! ## Restored engines -/

/-- Fewer clauses are known than numbers were given. -/
theorem Tidy.length_lt_counter (h : e.Tidy) : (e.knowledge.toList.length : Int) < e.counter := by
  have hnodup := nodup_of_increasing h.increasing
  have hsub : e.knowledge.ids.toFinset ⊆ Finset.Ico 1 e.counter := by
    intro n hn
    rw [List.mem_toFinset] at hn
    exact Finset.mem_Ico.2 ⟨h.positive n hn, h.below n (List.mem_append_left _ hn)⟩
  have hcard := Finset.card_le_card hsub
  rw [List.toFinset_card_of_nodup hnodup, Int.card_Ico, ClauseTable.ids, List.length_map] at hcard
  have := h.begun
  omega

theorem restore_of_error {saved : Saved} {texts : List String} {error : ParseError}
    (htexts : saved.clauses = some texts) (h : texts.mapM (Clause.parse 0) = .error error) :
    saved.restore = .error (.unreadable error) := by
  unfold Saved.restore
  rw [htexts]
  dsimp only
  rw [ofTexts_of_error h]

theorem restore_of_ok {saved : Saved} {texts : List String} (htexts : saved.clauses = some texts)
    (h : ofTexts texts = .ok e) (hmisfit : saved.misfit = none) :
    saved.restore = .ok { e with counter := max (saved.counter.getD e.counter) e.counter } := by
  unfold Saved.restore
  rw [htexts]
  dsimp only
  rw [h, hmisfit]

/-- Nothing is restored without clauses, from a text that is no clause, or with a value in the wrong place. -/
theorem restore_eq_error {saved : Saved} {fault : Fault} (h : saved.restore = .error fault) : fault = .noClauses ∨
    (∃ texts error, saved.clauses = some texts ∧ texts.mapM (Clause.parse 0) = .error error ∧
      fault = .unreadable error) ∨ ∃ value, saved.misfit = some value ∧ fault = .misfit value := by
  cases htexts : saved.clauses with
  | none =>
    unfold Saved.restore at h
    rw [htexts] at h
    cases h
    exact .inl rfl
  | some texts =>
    cases hmap : texts.mapM (Clause.parse 0) with
    | error error =>
      rw [restore_of_error htexts hmap] at h
      cases h
      exact .inr (.inl ⟨texts, error, rfl, hmap, rfl⟩)
    | ok cs =>
      obtain ⟨e, hofTexts, -⟩ := built_ofTexts (reads_of_mapM hmap)
      cases hmisfit : saved.misfit with
      | none =>
        rw [restore_of_ok htexts hofTexts hmisfit] at h
        cases h
      | some value =>
        unfold Saved.restore at h
        rw [htexts] at h
        dsimp only at h
        rw [hofTexts, hmisfit] at h
        cases h
        exact .inr (.inr ⟨value, rfl, rfl⟩)

/-- What is restored is what is kept of the sets that the texts are read as. -/
theorem exists_reads_of_restore {saved : Saved} {texts : List String} (htexts : saved.clauses = some texts)
    (h : saved.restore = .ok e) : ∃ sets,
      List.Forall₂ (fun text s => Clause.parseLiterals text.toList = .ok s) texts sets ∧
        e.knowledge.toList = kept sets := by
  cases hmap : texts.mapM (Clause.parse 0) with
  | error error =>
    rw [restore_of_error htexts hmap] at h
    cases h
  | ok cs =>
    obtain ⟨texts', e', htexts', hofTexts, -, rfl⟩ := exists_of_restore h
    obtain rfl := Option.some.inj (htexts.symm.trans htexts')
    obtain ⟨e₁, hofTexts₁, hbuilt⟩ := built_ofTexts (reads_of_mapM hmap)
    obtain rfl := Except.ok.inj (hofTexts.symm.trans hofTexts₁)
    exact ⟨_, reads_of_mapM hmap, hbuilt.knowledge⟩

theorem names_eq (e : Engine) : e.names = e.knowledge.keys.map LiteralSet.name := by
  rw [names, ClauseTable.keys, List.map_map]
  rfl

theorem saved_congr (hkeys : e'.knowledge.keys = e.knowledge.keys) (hcounter : e'.counter = e.counter) :
    e'.saved = e.saved := by
  rw [saved, saved, names_eq, names_eq, hkeys, hcounter]

theorem Tidy.ne_empty (h : e.Tidy) {s : LiteralSet} (hs : s ∈ e.knowledge.keys) : s ≠ .empty :=
  fun heq => h.irredundant.nonempty (heq ▸ ClauseTable.mem_keys.1 hs)

theorem exists_restored (h : e.Tidy) (hspelled : Spells e.knowledge.sets)
    (hlegible : ∀ s ∈ e.knowledge.keys, s.Legible) :
    ∃ e', e.saved.restore = .ok e' ∧ e'.knowledge.keys = e.knowledge.keys ∧
      e'.knowledge.ids = numbersFrom 1 e.knowledge.toList.length ∧ e'.counter = e.counter := by
  have hreads : List.Forall₂ (fun text s => Clause.parseLiterals text.toList = .ok s) e.names e.knowledge.keys := by
    rw [names_eq]
    refine List.forall₂_map_left_iff.2 (List.forall₂_same.2 fun s hs => ?_)
    exact (hlegible s hs).parseLiterals_name (h.ne_empty hs) (hspelled s (ClauseTable.mem_keys.1 hs))
  obtain ⟨e₁, hofTexts, hkeys, hids, hcounter⟩ := h.ofTexts hreads
  refine ⟨{ e₁ with counter := max e.counter e₁.counter }, restore_of_ok rfl hofTexts rfl, hkeys, hids, ?_⟩
  have hlt := h.length_lt_counter
  show max e.counter e₁.counter = e.counter
  omega

/-- **A session may be saved and restored unseen**, as long as every atom can stand beside the separator.  The restored
engine knows the same sets in the same order and counts on from the same number, so that it is saved as the same, and
no command lines tell the two apart.  Loading comes to the same wherever the saved text is read as what was saved. -/
theorem restores_unseen (h : e.Attained) (hplain : ∀ s ∈ e.knowledge.keys, ∀ l ∈ s, l.Plain) :
    ∃ e', e.saved.restore = .ok e' ∧ e'.knowledge.keys = e.knowledge.keys ∧
      e'.knowledge.ids = numbersFrom 1 e.knowledge.toList.length ∧ e'.counter = e.counter ∧ e'.saved = e.saved ∧
      (∀ value, Json.parse e.save = .ok value → Saved.ofJson value = e.saved → load e.save = .ok e') ∧
      ∀ (limit : Option Int) (lines : List String),
        let kept := Assistant.runAll ⟨e, limit, false, []⟩ lines
        let restored := Assistant.runAll ⟨e', limit, false, []⟩ lines
        restored.1 = kept.1 ∧ List.Forall₂ Outcome.Agrees restored.2.outcomes kept.2.outcomes ∧
          restored.2.engine.knowledge.keys = kept.2.engine.knowledge.keys := by
  obtain ⟨e', hrestore, hkeys, hids, hcounter⟩ := exists_restored h.tidy h.spells fun s hs =>
    LiteralSet.legible_of_plain (h.tidy.ne_empty hs) (hplain s hs)
  refine ⟨e', hrestore, hkeys, hids, hcounter, saved_congr hkeys hcounter, fun value hparse hvalue => ?_,
    fun limit lines => ?_⟩
  · rw [load, hparse]
    show (Saved.ofJson value).restore = _
    rw [hvalue, hrestore]
  · have hsince := Assistant.since_engine h.tidy h.filed limit false
    have hsince' := Assistant.since_engine (invariant_tidy.restore hrestore) (invariant_filed.restore hrestore)
      limit false
    have hagrees : Assistant.Agrees ⟨e', limit, false, []⟩ ⟨e, limit, false, []⟩ :=
      ⟨rfl, ⟨rfl, rfl⟩, hkeys, .nil⟩
    obtain ⟨hprinted, hafter⟩ := hagrees.runAll hsince' hsince lines
    exact ⟨hprinted, hafter.outcomes, hafter.keys⟩

/-- A clause that was removed leaves a gap in the numbers, which the restored engine does not have. -/
theorem restores_unseen_after_removal :
    let e := (Step.performAll [.add "p v q", .add "~p", .remove "~p", .add "~p v r"] {}).2.engine
    e.Attained ∧ (∀ s ∈ e.knowledge.keys, ∀ l ∈ s, l.Plain) ∧ e.knowledge.ids = [1, 3] ∧ e.counter = 4 ∧
      ∃ e', load e.save = .ok e' ∧ e'.knowledge.ids = [1, 2] ∧ e'.counter = 4 ∧
        (Assistant.runAll ⟨e', none, false, []⟩ ["q v r?"]).1 =
          (Assistant.runAll ⟨e, none, false, []⟩ ["q v r?"]).1 := by
  intro e
  have h : e.Attained := ⟨[.add "p v q", .add "~p", .remove "~p", .add "~p v r"], rfl⟩
  have hplain : ∀ s ∈ e.knowledge.keys, ∀ l ∈ s, l.Plain := by
    have hatoms : ∀ s ∈ e.knowledge.keys, ∀ l ∈ s.toList,
        l.atom ≠ "v" ∧ ¬['v', ' '] <+: l.atom.toList ∧ ¬[' ', 'v'] <:+ l.atom.toList := by decide +kernel
    intro s hs l hl
    obtain ⟨hne, hopening, hclosing⟩ := hatoms s hs l (LiteralSet.mem_toList.2 hl)
    exact ⟨hne, hopening, hclosing⟩
  have hids : e.knowledge.ids = [1, 3] := by decide +kernel
  have hcounter : e.counter = 4 := by decide +kernel
  have hread : (Json.parse e.save).toOption.map Saved.ofJson = some e.saved := by decide +kernel
  have hlength : e.knowledge.toList.length = 2 := by decide +kernel
  clear_value e
  obtain ⟨e', -, -, hids', hcounter', -, hload, hrun⟩ := restores_unseen h hplain
  obtain ⟨value, hparse, hvalue⟩ : ∃ value, Json.parse e.save = .ok value ∧ Saved.ofJson value = e.saved := by
    cases hparse : Json.parse e.save with
    | error failure => simp [hparse, Except.toOption] at hread
    | ok value => exact ⟨value, rfl, by simpa [hparse, Except.toOption] using hread⟩
  refine ⟨h, hplain, hids, hcounter, e', hload value hparse hvalue, ?_, hcounter'.trans hcounter, (hrun none _).1⟩
  rw [hids', hlength]
  rfl

end Engine

end Clausal
