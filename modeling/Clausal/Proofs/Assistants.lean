import Clausal.Cooking.Assistant
import Clausal.Proofs.Retelling
import Clausal.Proofs.Spelling

/-!
# Assistants that answer alike

What an assistant prints, and what its runs find, depends on its engine only through the sets of the knowledge base and
their order.  The numbers of the clauses, the counter and the derivations of earlier runs differ between engines that
know the same, and no command line lets one see it.

* `Assistant.Effect`: what a command line can do, said for all assistants at once;
* `Assistant.Since`: the runs of an assistant are kept as they ended, since its knowledge base stands in older
  derivations only;
* `Assistant.Agrees.runAll`: assistants that agree print the same, and agree after any command lines.
-/

namespace Clausal

namespace Engine

variable {e e' : Engine} {n : Nat}

/-! ## What is known -/

/-- The sets that are known once `s` is added to `known`. -/
def taken (known : List LiteralSet) (s : LiteralSet) : List LiteralSet :=
  if s.isTautology ∨ ∃ k ∈ known, k ⊆ s then known else known.filter (¬s ⊆ ·) ++ [s]

theorem keys_learn (h : IsAntichain (· ⊆ ·) e.knowledge.sets) (c : Clause) :
    (e.learn c).knowledge.keys = taken e.knowledge.keys c.literals := by
  have htest : (c.literals.isTautology = true ∨ ∃ k ∈ e.knowledge.keys, k ⊆ c.literals) ↔
      c.isTautology = true ∨ Covered e.knowledge.sets c.literals := by
    simp only [ClauseTable.mem_keys, Covered, Clause.isTautology]
  unfold taken
  rcases learn_cases h c with ⟨hredundant, heq⟩ | ⟨hproper, hnew, hlist⟩
  · rw [heq, if_pos (htest.2 hredundant)]
  · have hnot : ¬(c.isTautology = true ∨ Covered e.knowledge.sets c.literals) := by simp [hproper, hnew]
    rw [if_neg (mt htest.1 hnot), ClauseTable.keys, ClauseTable.keys, hlist, List.map_append, List.filter_map]
    rfl

/-- The sets that are known once a text is added. -/
def knownAfter (known : List LiteralSet) (text : String) : List LiteralSet :=
  ((Clause.parseLiterals text.toList).toOption.map (taken known)).getD known

theorem keys_add (h : IsAntichain (· ⊆ ·) e.knowledge.sets) (text : String) :
    (e.add text).2.knowledge.keys = knownAfter e.knowledge.keys text := by
  unfold Engine.add Clause.parse knownAfter
  cases Clause.parseLiterals text.toList with
  | error error => rfl
  | ok s => exact keys_learn (e := { e with counter := e.counter + 1 }) h _

theorem keys_erase (t : ClauseTable) (s : LiteralSet) : (t.erase s).keys = t.keys.filter (· != s) := by
  rw [ClauseTable.keys, ClauseTable.keys, List.filter_map]
  rfl

/-! ## Derivations of earlier runs -/

theorem earlier_refresh {places : List Place} {c : Clause} (h : ∀ p ∈ places, p.derivation ≠ n) :
    (e.refresh places c).earlier[n]? = e.earlier[n]? := by
  show (places.foldl (fun earlier place => earlier.modify place.derivation (·.refresh [place] c)) e.earlier)[n]? = _
  generalize e.earlier = earlier
  induction places generalizing earlier with
  | nil => rfl
  | cons p places ih =>
    rw [List.foldl_cons, ih fun q hq => h q (by simp [hq]), Array.getElem?_modify, if_neg (h p (by simp))]

theorem earlier_reset (h : ∀ c ∈ e.knowledge.toList, ∀ p ∈ c.places, p.derivation ≠ n) :
    e.reset.earlier[n]? = e.earlier[n]? := by
  have hplaces : ∀ c ∈ renumbered 1 e.knowledge.toList, ∀ p ∈ c.places, p.derivation ≠ n := by
    intro c hc p hp
    obtain ⟨d, hd, heq⟩ := places_renumbered hc
    exact h d hd p (heq ▸ hp)
  show ((renumbered 1 e.knowledge.toList).foldl (fun e c => e.refresh c.places c) e).earlier[n]? = _
  generalize renumbered 1 e.knowledge.toList = cs at hplaces
  induction cs generalizing e with
  | nil => rfl
  | cons c cs ih =>
    rw [List.foldl_cons, ih (e := e.refresh c.places c) _ fun d hd => hplaces d (by simp [hd]),
      earlier_refresh (hplaces c (by simp))]
    exact h

/-- The negation of a goal stands in no derivation, so that to start with it changes none. -/
theorem earlier_start_aim (e : Engine) (goal : Clause) :
    (e.aim goal).start.2.earlier = e.earlier.push e.derivation := by
  have hcopied : (e.aim goal).opened.Steady (e.aim goal).copied.2 :=
    steady_registerAll _ _ fun c hc => (places_bare hc).2
  have henlisted : (e.aim goal).copied.2.Steady (e.aim goal).enlisted.2 := by
    refine steady_registerAll _ _ fun c hc => ?_
    rw [support_copied, toList_support_aim] at hc
    exact (places_negationUnits hc).2
  rw [start_eq]
  exact (hcopied.trans henlisted).earlier

/-- What a query leaves of an engine.  The derivations in which the knowledge base stands may be shown anew. -/
structure Queried (e : Engine) (r : Run) (e' : Engine) : Prop where
  derivation : r.derivation = e.derivation.number + 1
  number : e'.derivation.number = e.derivation.number + 1
  keys : e'.knowledge.keys = e.knowledge.keys
  places : ∀ c ∈ e'.knowledge.toList, ∃ d ∈ e.knowledge.toList, c.places = d.places
  earlier : ∀ n ≤ e.derivation.number, (∀ c ∈ e.knowledge.toList, ∀ p ∈ c.places, p.derivation ≠ n) →
    e'.derivationAt n = e.derivationAt n

theorem queried_pursue {goal : Clause} {limit : Option Int} {r : Run} (h : e.Archived)
    (hrun : (e.aim goal).pursue goal limit = (r, e')) : e.Queried r e' := by
  obtain ⟨e₂, laps, verdict, hsteady, heq⟩ := exists_pursue (e.aim goal) goal limit
  obtain ⟨rfl, rfl⟩ := Prod.ext_iff.1 (hrun.symm.trans heq)
  obtain ⟨hknowledge, hnumber, -⟩ := frame_start (e.aim goal)
  have hknown : e₂.knowledge = e.knowledge := hsteady.knowledge.trans hknowledge
  have hlast : e₂.derivation.number = e.derivation.number + 1 := hsteady.number.trans hnumber
  have hreset : e₂.reset.derivation.number = e.derivation.number + 1 := (frame_reset e₂).1.trans hlast
  refine ⟨hlast, hreset, ?_, fun c hc => ?_, fun n hn hforeign => ?_⟩
  · rw [← hknown]
    exact keys_knowledge_reset e₂
  · rw [toList_knowledge_reset, hknown] at hc
    exact places_renumbered hc
  · have hearlier : e₂.reset.earlier[n]? = (e.earlier.push e.derivation)[n]? := by
      rw [earlier_reset (hknown ▸ hforeign), hsteady.earlier, earlier_start_aim]
    have hne : n ≠ e₂.reset.derivation.number := by omega
    have hsize := h.earlier
    rw [derivationAt, derivationAt, if_neg hne, Array.getD_eq_getD_getElem?, Array.getD_eq_getD_getElem?,
      hearlier, Array.getElem?_push, hsize]
    split
    · rfl
    · rfl

end Engine

namespace Assistant

variable {a a' : Assistant} {first first' : Nat} {r : Run}

/-! ## Command lines -/

/-- The sets that are known after a command line. -/
def edited (line : String) (known : List LiteralSet) : List LiteralSet :=
  let command := Command.parse line
  match command.action?, Clause.parseLiterals command.clause.toList with
  | some .add, .ok s => Engine.taken known s
  | some .remove, .ok s => known.filter (· != s)
  | _, _ => known

/-- Does a command line add or remove a clause that can be read? -/
def edits (line : String) : Bool :=
  let command := Command.parse line
  (command.action? = some .add || command.action? = some .remove) && (Clause.parse 0 command.clause).isOk

/-- What is done for a command, and printed between its heading and the blank line after it. -/
def carryOut (a : Assistant) (clause : String) : Action → String × Assistant
  | .query => a.query clause
  | .add => a.add clause
  | .remove => a.remove clause

section Line

variable {line : String}

theorem parse_trimmed (line : String) : Command.parse (Text.trimmed line) = Command.parse line := by
  unfold Command.parse Text.trimmed
  rw [String.toList_ofList, Text.trim_eq_self (Text.trimmed_trim _)]

theorem step_of_no_action (h : (Command.parse line).action? = none) :
    ∃ text, ∀ a : Assistant, a.step line = (text, a) := by
  by_cases hblank : (Text.trimmed line).isEmpty
  · exact ⟨"", fun a => by simp [step, hblank]⟩
  · refine ⟨heading (Text.trimmed line) ++ "Unknown command.\n" ++ "\n", fun a => ?_⟩
    simp [step, hblank, execute, parse_trimmed, h]

theorem step_of_action {action : Action} (h : (Command.parse line).action? = some action) (a : Assistant) :
    a.step line = (heading (Text.trimmed line) ++ (a.carryOut (Command.parse line).clause action).1 ++ "\n",
      (a.carryOut (Command.parse line).clause action).2) := by
  have hblank : ¬(Text.trimmed line).isEmpty := by
    have hempty : (Command.parse "").action? = none := by decide +kernel
    intro hblank
    rw [← parse_trimmed, String.isEmpty_iff.1 hblank, hempty] at h
    cases h
  have hexecute : a.step line = a.execute (Text.trimmed line) := if_neg hblank
  rw [hexecute]
  unfold execute
  dsimp only
  rw [parse_trimmed, h]
  cases action <;> rfl

/-- A clause that cannot be read is complained of, whatever is to be done with it; to try to add it uses up a number. -/
theorem carryOut_of_error {clause : String} {error : ParseError}
    (h : Clause.parseLiterals clause.toList = .error error) (a : Assistant) (action : Action) :
    a.carryOut clause action =
      (complaint clause error, if action = .add then { a with engine := (a.engine.add clause).2 } else a) := by
  cases action with
  | add => simp [carryOut, add, Engine.add, Clause.parse, h]
  | remove => simp [carryOut, remove, Engine.remove, Clause.parse, h]
  | query => simp [carryOut, query, Clause.parse, h]

section Read

variable {clause : String} {c : Clause} (h : Clause.parse 0 clause = .ok c)

include h

theorem carryOut_add (a : Assistant) :
    a.carryOut clause .add = ("Added " ++ clause ++ "\n", { a with engine := (a.engine.add clause).2 }) := by
  unfold Clause.parse at h
  cases hparse : Clause.parseLiterals clause.toList with
  | error error => simp [hparse] at h
  | ok s => simp [carryOut, add, Engine.add, Clause.parse, hparse]

theorem carryOut_remove (a : Assistant) : a.carryOut clause .remove = ("Removed " ++ clause ++ "\n",
    { a with engine := { a.engine with knowledge := a.engine.knowledge.erase c.literals } }) := by
  simp [carryOut, remove, Engine.remove, h]

theorem carryOut_query {a : Assistant} {e : Engine} (hrun : (a.engine.aim c).pursue c a.limit = (r, e)) :
    a.carryOut clause .query = ((if a.verbose then e.runText r else "") ++ traceText (e.outcome r),
      { a with engine := e, runs := a.runs ++ [r] }) := by
  simp [carryOut, query, h, hrun]

end Read

theorem edited_of_not_edits (h : edits line = false) (known : List LiteralSet) : edited line known = known := by
  unfold edited
  unfold edits Clause.parse at h
  dsimp only at h ⊢
  split
  · rename_i haction hparse
    simp [haction, hparse, Except.isOk, Except.toBool] at h
  · rename_i haction hparse
    simp [haction, hparse, Except.isOk, Except.toBool] at h
  · rfl

/-- What a command line does to an assistant is known before the assistant is, and so is what it prints, but for the
rounds and the proof that a query shows. -/
inductive Effect (line : String) : Prop
  | nothing {text : String} (hasks : asks line = false) (hknown : ∀ known, edited line known = known)
      (hstep : ∀ a : Assistant, a.step line = (text, a))
  | adds {text clause : String} (hasks : asks line = false)
      (hknown : ∀ known, edited line known = Engine.knownAfter known clause)
      (hstep : ∀ a : Assistant, a.step line = (text, { a with engine := (a.engine.add clause).2 }))
  | removes {text clause : String} {c : Clause} (hasks : asks line = false) (hparse : Clause.parse 0 clause = .ok c)
      (hknown : ∀ known, edited line known = known.filter (· != c.literals))
      (hstep : ∀ a : Assistant, a.step line =
        (text, { a with engine := { a.engine with knowledge := a.engine.knowledge.erase c.literals } }))
  | queries {before : String} {goal : Clause} (hasks : asks line = true)
      (hparse : Clause.parse 0 (Command.parse line).clause = .ok goal) (hknown : ∀ known, edited line known = known)
      (hstep : ∀ (a : Assistant) (r : Run) (e : Engine), (a.engine.aim goal).pursue goal a.limit = (r, e) →
        a.step line = (before ++ ((if a.verbose then e.runText r else "") ++ traceText (e.outcome r)) ++ "\n",
          { a with engine := e, runs := a.runs ++ [r] }))

theorem effect (line : String) : Effect line := by
  cases haction : (Command.parse line).action? with
  | none =>
    obtain ⟨text, hstep⟩ := step_of_no_action haction
    refine .nothing ?_ (fun known => ?_) hstep
    · simp [asks, haction]
    · simp [edited, haction]
  | some action =>
    have hstep := step_of_action haction
    cases hparse : Clause.parseLiterals (Command.parse line).clause.toList with
    | error error =>
      have hasks : asks line = false := by simp [asks, Clause.parse, hparse, Except.isOk, Except.toBool]
      have hknown : ∀ known, edited line known = known := fun known => by simp [edited, hparse]
      simp only [carryOut_of_error hparse] at hstep
      cases action with
      | add =>
        have hsame : ∀ known, edited line known = Engine.knownAfter known (Command.parse line).clause := by
          intro known
          rw [hknown, Engine.knownAfter, hparse]
          rfl
        exact .adds hasks hsame hstep
      | remove => exact .nothing hasks hknown hstep
      | query => exact .nothing hasks hknown hstep
    | ok s =>
      have hread : Clause.parse 0 (Command.parse line).clause = .ok { literals := s, id := 0 } := by
        rw [Clause.parse, hparse]
        rfl
      cases action with
      | add =>
        simp only [carryOut_add hread] at hstep
        have htaken : ∀ known, edited line known = Engine.knownAfter known (Command.parse line).clause := by
          intro known
          simp [edited, haction, hparse, Engine.knownAfter, Except.toOption]
        exact .adds (by simp [asks, haction]) htaken hstep
      | remove =>
        simp only [carryOut_remove hread] at hstep
        exact .removes (by simp [asks, haction]) hread (fun known => by simp [edited, haction, hparse]) hstep
      | query =>
        have hasks : asks line = true := by simp [asks, haction, hread, Except.isOk, Except.toBool]
        exact .queries hasks hread (fun known => by simp [edited, haction]) fun a r e hrun =>
          carryOut_query hread hrun ▸ hstep a

end Line

/-! ## Runs that are kept -/

/-- The runs of the assistant have derivations of their own: the knowledge base stands at most in the derivations up to
`first`, and the runs came after it. -/
structure Since (first : Nat) (a : Assistant) : Prop where
  begun : first ≤ a.engine.derivation.number
  tidy : a.engine.Tidy
  filed : a.engine.Filed
  known : ∀ c ∈ a.engine.knowledge.toList, ∀ p ∈ c.places, p.derivation ≤ first
  runs : ∀ r ∈ a.runs, first < r.derivation ∧ r.derivation ≤ a.engine.derivation.number

theorem since_engine {e : Engine} (ht : e.Tidy) (hf : e.Filed) (limit : Option Int) (verbose : Bool) :
    Since e.derivation.number ⟨e, limit, verbose, []⟩ :=
  ⟨le_rfl, ht, hf, hf.knowledge, by simp⟩

theorem outcome_congr {e e' : Engine} (h : e'.derivationAt r.derivation = e.derivationAt r.derivation) :
    e'.outcome r = e.outcome r := by
  unfold Engine.outcome
  rw [h]

/-- A call that leaves the derivations alone. -/
theorem Since.call (h : a.Since first) {e : Engine} (ht : e.Tidy) (hf : e.Filed)
    (hderivation : e.derivation = a.engine.derivation) (hearlier : e.earlier = a.engine.earlier)
    (hknown : ∀ c ∈ e.knowledge.toList, ∀ p ∈ c.places, p.derivation ≤ first) :
    Since first { a with engine := e } ∧ ∀ r, e.outcome r = a.engine.outcome r := by
  refine ⟨⟨hderivation ▸ h.begun, ht, hf, hknown, ?_⟩, fun r => outcome_congr ?_⟩
  · show ∀ r ∈ a.runs, first < r.derivation ∧ r.derivation ≤ e.derivation.number
    rw [hderivation]
    exact h.runs
  · rw [Engine.derivationAt, Engine.derivationAt, hderivation, hearlier]

theorem Since.add (h : a.Since first) (clause : String) :
    Since first { a with engine := (a.engine.add clause).2 } ∧
      ∀ r, (a.engine.add clause).2.outcome r = a.engine.outcome r := by
  have hderivation : (a.engine.add clause).2.derivation = a.engine.derivation := by rw [Engine.add_frame]
  have hearlier : (a.engine.add clause).2.earlier = a.engine.earlier := by rw [Engine.add_frame]
  refine h.call (h.tidy.add clause) (Engine.kept_filed.add clause h.filed) hderivation hearlier fun b hb => ?_
  rcases Engine.mem_knowledge_add hb with hb | hplaces
  · exact h.known b hb
  · simp [hplaces]

theorem Since.remove (h : a.Since first) {clause : String} {e : Engine} (hremove : a.engine.remove clause = .ok e) :
    Since first { a with engine := e } ∧ ∀ r, e.outcome r = a.engine.outcome r := by
  have ht := h.tidy.remove hremove
  have hf := Engine.kept_filed.remove h.filed hremove
  obtain ⟨c, -, rfl⟩ := Engine.remove_eq_ok_iff.1 hremove
  exact h.call ht hf rfl rfl fun b hb => h.known b (List.mem_of_mem_filter hb)

theorem Since.query (h : a.Since first) {goal : Clause} {e : Engine}
    (hrun : (a.engine.aim goal).pursue goal a.limit = (r, e)) :
    Since first { a with engine := e, runs := a.runs ++ [r] } ∧
      ∀ s ∈ a.runs, e.outcome s = a.engine.outcome s := by
  have hqueried := Engine.queried_pursue h.filed.toArchived hrun
  have he : e = ((a.engine.aim goal).pursue goal a.limit).2 := by rw [hrun]
  have ht : e.Tidy := he ▸ Engine.invariant_tidy.pursue (h.tidy.aim goal).irredundant goal a.limit
  have hf : e.Filed := he ▸ Engine.invariant_filed.pursue (h.filed.toArchived.aim goal).toArchived goal a.limit
  have hbegun := h.begun
  have hnumber := hqueried.number
  refine ⟨⟨?_, ht, hf, fun c hc p hp => ?_, fun s hs => ?_⟩, fun s hs => outcome_congr ?_⟩
  · show first ≤ e.derivation.number
    omega
  · obtain ⟨d, hd, hplaces⟩ := hqueried.places c hc
    exact h.known d hd p (hplaces ▸ hp)
  · show first < s.derivation ∧ s.derivation ≤ e.derivation.number
    rcases List.mem_append.1 hs with hs | hs
    · have := h.runs s hs
      omega
    · rw [List.mem_singleton.1 hs, hqueried.derivation]
      omega
  · obtain ⟨hlt, hle⟩ := h.runs s hs
    refine hqueried.earlier _ hle fun c hc p hp => ?_
    have := h.known c hc p hp
    omega

theorem Since.outcomes_query (h : a.Since first) {goal : Clause} {e : Engine}
    (hrun : (a.engine.aim goal).pursue goal a.limit = (r, e)) :
    outcomes { a with engine := e, runs := a.runs ++ [r] } = a.outcomes ++ [e.outcome r] := by
  show (a.runs ++ [r]).map e.outcome = a.runs.map a.engine.outcome ++ [e.outcome r]
  rw [List.map_append, List.map_congr_left (h.query hrun).2]
  rfl

/-- **What a command line does**: the runs stay as they ended, one is added if the line asks for it, and what is known
changes as the line says. -/
theorem Since.step (h : a.Since first) (line : String) : (a.step line).2.Since first ∧
    (a.step line).2.engine.knowledge.keys = edited line a.engine.knowledge.keys ∧
    ∃ new, (a.step line).2.outcomes = a.outcomes ++ new ∧ new.length = ([line].filter asks).length := by
  cases effect line with
  | nothing hasks hknown hstep =>
    rw [hstep, hknown]
    exact ⟨h, rfl, [], by simp, by simp [hasks]⟩
  | adds hasks hknown hstep =>
    obtain ⟨hadd, hkeep⟩ := h.add _
    rw [hstep, hknown]
    refine ⟨hadd, Engine.keys_add h.tidy.irredundant.antichain _, [], ?_, by simp [hasks]⟩
    simp [outcomes, hkeep]
  | removes hasks hparse hknown hstep =>
    obtain ⟨hremove, hkeep⟩ := h.remove (Engine.remove_eq_ok_iff.2 ⟨_, hparse, rfl⟩)
    rw [hstep, hknown]
    refine ⟨hremove, Engine.keys_erase _ _, [], ?_, by simp [hasks]⟩
    simp [outcomes, hkeep]
  | @queries _ goal hasks _ hknown hstep =>
    cases hrun : (a.engine.aim goal).pursue goal a.limit with
    | mk r e =>
      have hkeys := (Engine.queried_pursue h.filed.toArchived hrun).keys
      rw [hstep a r e hrun, hknown]
      exact ⟨(h.query hrun).1, hkeys, [e.outcome r], h.outcomes_query hrun, by simp [hasks]⟩

/-! ## Agreement -/

/-- The assistants know the same sets in the same order, they print no rounds, and those who see what their runs found
see the same. -/
structure Agrees (a a' : Assistant) : Prop where
  limit : a.limit = a'.limit
  quiet : a.verbose = false ∧ a'.verbose = false
  keys : a.engine.knowledge.keys = a'.engine.knowledge.keys
  outcomes : List.Forall₂ Outcome.Agrees a.outcomes a'.outcomes

theorem traceText_congr {o o' : Outcome} (h : o.trace = o'.trace) : traceText o = traceText o' := by
  unfold traceText Outcome.proofText
  rw [h]

/-- Calls that keep the outcomes and do the same to the sets that are known. -/
theorem Agrees.call (h : a.Agrees a') {e e' : Engine} (hkeys : e.knowledge.keys = e'.knowledge.keys)
    (hkeep : ∀ r, e.outcome r = a.engine.outcome r) (hkeep' : ∀ r, e'.outcome r = a'.engine.outcome r) :
    Agrees { a with engine := e } { a' with engine := e' } := by
  refine ⟨h.limit, h.quiet, hkeys, ?_⟩
  show List.Forall₂ Outcome.Agrees (a.runs.map e.outcome) (a'.runs.map e'.outcome)
  rw [funext hkeep, funext hkeep']
  exact h.outcomes

theorem Agrees.query (h : a.Agrees a') (hs : a.Since first) (hs' : a'.Since first') {goal : Clause} {r r' : Run}
    {e e' : Engine} (hrun : (a.engine.aim goal).pursue goal a.limit = (r, e))
    (hrun' : (a'.engine.aim goal).pursue goal a'.limit = (r', e')) :
    (e.outcome r).Agrees (e'.outcome r') ∧ Agrees { a with engine := e, runs := a.runs ++ [r] }
      { a' with engine := e', runs := a'.runs ++ [r'] } := by
  have hkeys := (Engine.queried_pursue hs.filed.toArchived hrun).keys
  have hkeys' := (Engine.queried_pursue hs'.filed.toArchived hrun').keys
  have hnew : (e.outcome r).Agrees (e'.outcome r') := by
    rw [← h.limit] at hrun'
    exact Engine.agrees_pursue hs.filed hs'.filed hs.tidy hs'.tidy h.keys hrun hrun'
  refine ⟨hnew, h.limit, h.quiet, hkeys.trans (h.keys.trans hkeys'.symm), ?_⟩
  rw [hs.outcomes_query hrun, hs'.outcomes_query hrun']
  exact List.rel_append h.outcomes (.cons hnew .nil)

/-- A command line shows no difference between assistants that agree, and makes none. -/
theorem Agrees.step (h : a.Agrees a') (hs : a.Since first) (hs' : a'.Since first') (line : String) :
    (a.step line).1 = (a'.step line).1 ∧ (a.step line).2.Agrees (a'.step line).2 := by
  have hkeys : (a.step line).2.engine.knowledge.keys = (a'.step line).2.engine.knowledge.keys := by
    rw [(hs.step line).2.1, (hs'.step line).2.1, h.keys]
  cases effect line with
  | nothing _ _ hstep =>
    rw [hstep, hstep]
    exact ⟨rfl, h⟩
  | adds _ _ hstep =>
    rw [hstep, hstep] at hkeys ⊢
    exact ⟨rfl, h.call hkeys (hs.add _).2 (hs'.add _).2⟩
  | removes _ hparse _ hstep =>
    rw [hstep, hstep] at hkeys ⊢
    have hkeep := (hs.remove (Engine.remove_eq_ok_iff.2 ⟨_, hparse, rfl⟩)).2
    have hkeep' := (hs'.remove (Engine.remove_eq_ok_iff.2 ⟨_, hparse, rfl⟩)).2
    exact ⟨rfl, h.call hkeys hkeep hkeep'⟩
  | @queries before goal _ _ _ hstep =>
    cases hrun : (a.engine.aim goal).pursue goal a.limit with
    | mk r e =>
      cases hrun' : (a'.engine.aim goal).pursue goal a'.limit with
      | mk r' e' =>
        obtain ⟨hnew, hagrees⟩ := h.query hs hs' hrun hrun'
        rw [hstep a r e hrun, hstep a' r' e' hrun']
        refine ⟨?_, hagrees⟩
        simp [h.quiet, traceText_congr hnew.trace]

theorem runAll_cons (a : Assistant) (line : String) (lines : List String) : a.runAll (line :: lines) =
    ((a.step line).1 ++ ((a.step line).2.runAll lines).1, ((a.step line).2.runAll lines).2) := by
  rw [runAll]

/-- **Assistants that agree print the same for any command lines, and agree afterwards.** -/
theorem Agrees.runAll (h : a.Agrees a') (hs : a.Since first) (hs' : a'.Since first') (lines : List String) :
    (a.runAll lines).1 = (a'.runAll lines).1 ∧ (a.runAll lines).2.Agrees (a'.runAll lines).2 := by
  induction lines generalizing a a' with
  | nil => exact ⟨rfl, h⟩
  | cons line lines ih =>
    obtain ⟨hprinted, hagrees⟩ := h.step hs hs' line
    obtain ⟨hmore, hlast⟩ := ih hagrees (hs.step line).1 (hs'.step line).1
    rw [runAll_cons, runAll_cons, hprinted, hmore]
    exact ⟨rfl, hlast⟩

end Assistant

end Clausal
