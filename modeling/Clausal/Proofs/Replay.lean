import Clausal.Proofs.Restoring

/-!
# Sessions that are replayed

A query changes nearly everything in an engine, and a clause that cannot be read may still use up a number.  What an
assistant answers later depends on neither: only the sets that are known matter, and only lines that add or remove a
clause change them.

* `Assistant.calls`: the calls that a command comes to, with the fault if one of them fails;
* `Assistant.Since.runAll`: what a session leaves, in terms of its lines;
* `Engine.Answers`: what an engine that is asked by itself says;
* `Assistant.session`, `Assistant.replays`: the lines that add and remove are enough to replay a session, and each
  answer in it is the one of a new engine with the same knowledge.
-/

namespace Clausal

/-- There is a text that is read as the set. -/
def LiteralSet.Written (s : LiteralSet) : Prop := ∃ text : String, Clause.parseLiterals text.toList = .ok s

namespace Engine

variable {e : Engine} {texts : List String}

/-! ## New engines -/

theorem written_add (h : ∀ s ∈ e.knowledge.sets, s.Written) (text : String) :
    ∀ s ∈ (e.add text).2.knowledge.sets, s.Written := by
  unfold Engine.add Clause.parse
  cases hp : Clause.parseLiterals text.toList with
  | error error => exact h
  | ok s =>
    rintro _ ⟨d, hd, rfl⟩
    rcases mem_knowledge_learn hd with hd | rfl
    · exact h _ ⟨d, hd, rfl⟩
    · exact ⟨text, hp⟩

theorem Attained.written (h : e.Attained) : ∀ s ∈ e.knowledge.keys, s.Written := by
  let P : Set LiteralSet → Prop := fun X => ∀ s ∈ X, s.Written
  have hkept := kept_of_sets (P := P) (fun hsub h s hs => h s (hsub hs)) fun text h => written_add h text
  have hinvariant := invariant_of_sets (P := P) (fun s hs => absurd hs (Set.notMem_empty s)) hkept
  exact fun s hs => h.idle hinvariant s (ClauseTable.mem_keys.1 hs)

theorem attained_ofTexts (h : ofTexts texts = .ok e) : e.Attained := by
  have hrestore : Saved.restore { clauses := some texts } = .ok e := by
    simp [Saved.restore, h]
  refine ⟨[.restore { clauses := some texts }], ?_⟩
  simp [Step.performAll, Step.value, hrestore, Session.exchange, Session.replace, Session.engine, Session.engineAt]

/-- What is known can be told to a new engine. -/
theorem Tidy.exists_fresh (h : e.Tidy) (hwritten : ∀ s ∈ e.knowledge.keys, s.Written) :
    ∃ texts fresh, Engine.ofTexts texts = .ok fresh ∧ fresh.Attained ∧ fresh.knowledge.keys = e.knowledge.keys := by
  choose! text htext using hwritten
  have hreads : List.Forall₂ (fun text s => Clause.parseLiterals text.toList = .ok s) (e.knowledge.keys.map text)
      e.knowledge.keys := List.forall₂_map_left_iff.2 (List.forall₂_same.2 htext)
  obtain ⟨fresh, hfresh, hkeys, -⟩ := h.ofTexts hreads
  exact ⟨_, fresh, hfresh, attained_ofTexts hfresh, hkeys⟩

/-- Asked for a clause, the engine finds what the outcome says, and the proof can be shown. -/
def Answers (e : Engine) (limit : Option Int) (clause : String) (o : Outcome) : Prop :=
  ∃ e₁ r e₂ lines, e.setGoal clause = .ok e₁ ∧ e₁.run limit = .ok (r, e₂) ∧ o.Agrees (e₂.outcome r) ∧
    o.trace = .ok lines

end Engine

namespace Assistant

variable {a : Assistant} {first : Nat} {line : String}

/-! ## Calls -/

/-- The calls that a command comes to.  For a query they are to set the goal, to run, and to make the trace. -/
def calls (a : Assistant) (clause : String) : Action → Except Fault Assistant
  | .add =>
    match a.engine.add clause with
    | (.ok (), engine) => .ok { a with engine }
    | (.error error, _) => .error (.unreadable error)
  | .remove =>
    match a.engine.remove clause with
    | .ok engine => .ok { a with engine }
    | .error error => .error (.unreadable error)
  | .query =>
    match a.engine.setGoal clause with
    | .ok engine => do
      let (run, engine) ← engine.run a.limit
      let _ ← (engine.outcome run).trace
      return { a with engine, runs := a.runs ++ [run] }
    | .error error => .error (.unreadable error)

/-- No call of a command fails but for a clause that cannot be read, and this is complained of. -/
theorem Since.calls_cases (h : a.Since first) (clause : String) (action : Action) :
    a.calls clause action = .ok (a.carryOut clause action).2 ∨
      ∃ error, a.calls clause action = .error (.unreadable error) ∧
        (a.carryOut clause action).1 = complaint clause error := by
  cases hparse : Clause.parseLiterals clause.toList with
  | error error =>
    refine .inr ⟨error, ?_, by rw [carryOut_of_error hparse]⟩
    cases action with
    | add => simp [calls, Engine.add, Clause.parse, hparse]
    | remove => simp [calls, Engine.remove, Clause.parse, hparse]
    | query => simp [calls, Engine.setGoal, Clause.parse, hparse]
  | ok s =>
    let goal : Clause := { literals := s, id := 0 }
    have hread : Clause.parse 0 clause = .ok goal := by
      rw [Clause.parse, hparse]
      rfl
    left
    cases action with
    | add =>
      rw [carryOut_add hread]
      simp [calls, Engine.add, Clause.parse, hparse]
    | remove =>
      rw [carryOut_remove hread]
      simp [calls, Engine.remove, hread]
    | query =>
      cases hrun : (a.engine.aim goal).pursue goal a.limit with
      | mk r e =>
        obtain ⟨lines, htrace⟩ := Engine.exists_trace (h.filed.toArchived.aim goal) (h.tidy.aim goal) rfl hrun
        have hset : a.engine.setGoal clause = .ok (a.engine.aim goal) :=
          Engine.setGoal_eq_ok_iff.2 ⟨goal, hread, rfl⟩
        have hran : (a.engine.aim goal).run a.limit = .ok (r, e) := by
          rw [Engine.run_eq rfl, hrun]
        rw [carryOut_query hread hrun]
        simp [calls, hset, hran, htrace, bind, Except.bind, pure, Except.pure]

/-! ## Sessions -/

theorem written_edited {known : List LiteralSet} (h : ∀ s ∈ known, s.Written) (line : String) :
    ∀ s ∈ edited line known, s.Written := by
  unfold edited
  dsimp only
  split
  · rename_i t _ hparse
    unfold Engine.taken
    split
    · exact h
    · intro s hs
      rcases List.mem_append.1 hs with hs | hs
      · exact h s (List.mem_of_mem_filter hs)
      · rw [List.mem_singleton.1 hs]
        exact ⟨_, hparse⟩
  · exact fun s hs => h s (List.mem_of_mem_filter hs)
  · exact h

theorem written_foldl_edited {known : List LiteralSet} (h : ∀ s ∈ known, s.Written) (lines : List String) :
    ∀ s ∈ lines.foldl (fun known line => edited line known) known, s.Written := by
  induction lines generalizing known with
  | nil => exact h
  | cons line lines ih =>
    rw [List.foldl_cons]
    exact ih (written_edited h line)

/-- Only the lines that add or remove a clause matter to what is known. -/
theorem foldl_edited_filter (lines : List String) (known : List LiteralSet) :
    (lines.filter edits).foldl (fun known line => edited line known) known =
      lines.foldl (fun known line => edited line known) known := by
  have hskip : (fun known line => if edits line then edited line known else known) =
      fun known line => edited line known := by
    funext known line
    split
    · rfl
    · rename_i hedits
      rw [edited_of_not_edits (Bool.eq_false_iff.2 hedits)]
  rw [List.foldl_filter, hskip]

theorem limit_step (a : Assistant) (line : String) : (a.step line).2.limit = a.limit := by
  cases effect line with
  | nothing _ _ hstep => rw [hstep]
  | adds _ _ hstep => rw [hstep]
  | removes _ _ _ hstep => rw [hstep]
  | queries _ _ _ hstep => rw [hstep a _ _ rfl]

theorem runAll_append (a : Assistant) (lines lines' : List String) :
    (a.runAll (lines ++ lines')).2 = ((a.runAll lines).2.runAll lines').2 := by
  induction lines generalizing a with
  | nil => rfl
  | cons line lines ih =>
    rw [List.cons_append, runAll_cons, runAll_cons]
    dsimp only
    rw [ih]

/-- **What a session leaves**: the runs of before, one for each line that asks, and what is known after the lines. -/
theorem Since.runAll (h : a.Since first) (lines : List String) : (a.runAll lines).2.Since first ∧
    (a.runAll lines).2.limit = a.limit ∧
    (a.runAll lines).2.engine.knowledge.keys =
      lines.foldl (fun known line => edited line known) a.engine.knowledge.keys ∧
    ∃ new, (a.runAll lines).2.outcomes = a.outcomes ++ new ∧ new.length = (lines.filter asks).length := by
  induction lines generalizing a with
  | nil => exact ⟨h, rfl, rfl, [], by simp [Assistant.runAll], rfl⟩
  | cons line lines ih =>
    obtain ⟨hone, hkeys, new, hnew, hlength⟩ := h.step line
    obtain ⟨hlast, hlimit, hkeys', new', hnew', hlength'⟩ := ih hone
    rw [runAll_cons, List.foldl_cons, ← hkeys]
    refine ⟨hlast, hlimit.trans (limit_step a line), hkeys', new ++ new', ?_, ?_⟩
    · rw [hnew', hnew, List.append_assoc]
    · rw [List.length_append, hlength, hlength', ← List.length_append, ← List.filter_append]
      rfl

/-- A line that asks adds the outcome of its run. -/
theorem Since.step_of_asks (h : a.Since first) (hasks : asks line = true) :
    ∃ goal r e, Clause.parse 0 (Command.parse line).clause = .ok goal ∧
      (a.engine.aim goal).pursue goal a.limit = (r, e) ∧ (a.step line).2.outcomes = a.outcomes ++ [e.outcome r] := by
  cases effect line with
  | nothing hnot | adds hnot | removes hnot => simp [hasks] at hnot
  | @queries _ goal _ hparse _ hstep =>
    cases hrun : (a.engine.aim goal).pursue goal a.limit with
    | mk r e =>
      rw [hstep a r e hrun]
      exact ⟨goal, r, e, hparse, hrun, h.outcomes_query hrun⟩

/-- What a query finds is what any engine with the same knowledge answers. -/
theorem Since.answers (h : a.Since first) {clause : String} {goal : Clause} {r : Run} {e fresh : Engine}
    (hparse : Clause.parse 0 clause = .ok goal) (hrun : (a.engine.aim goal).pursue goal a.limit = (r, e))
    (hfresh : fresh.Attained) (hkeys : fresh.knowledge.keys = a.engine.knowledge.keys) :
    fresh.Answers a.limit clause (e.outcome r) := by
  obtain ⟨lines, htrace⟩ := Engine.exists_trace (h.filed.toArchived.aim goal) (h.tidy.aim goal) rfl hrun
  cases hrun' : (fresh.aim goal).pursue goal a.limit with
  | mk r' e' =>
    have hset : fresh.setGoal clause = .ok (fresh.aim goal) := Engine.setGoal_eq_ok_iff.2 ⟨goal, hparse, rfl⟩
    have hran : (fresh.aim goal).run a.limit = .ok (r', e') := by
      rw [Engine.run_eq rfl, hrun']
    have hagrees := Engine.agrees_pursue h.filed hfresh.filed h.tidy hfresh.tidy hkeys.symm hrun hrun'
    exact ⟨_, r', e', lines, hset, hran, hagrees, htrace⟩

/-- The assistant that has carried out the lines on an engine. -/
def session (e : Engine) (limit : Option Int) (verbose : Bool) (lines : List String) : Assistant :=
  (runAll ⟨e, limit, verbose, []⟩ lines).2

/-- **A session may be replayed from the lines that add and remove**, and its queries leave no trace in it.  There is
one outcome for each line that asks.  At every line, the calls that it comes to succeed and lead to what the assistant
goes on with, or the clause cannot be read and this is printed; and if the line asks, its outcome is what a new engine
answers that knows the same sets in the same order. -/
theorem replays {e : Engine} (h : e.Attained) (limit : Option Int) (verbose : Bool) (lines : List String) :
    (session e limit verbose lines).engine.knowledge.keys =
      (session e limit verbose (lines.filter edits)).engine.knowledge.keys ∧
    (session e limit verbose lines).outcomes.length = (lines.filter asks).length ∧
    ∀ before line rest, lines = before ++ line :: rest →
      let a := session e limit verbose before
      let clause := (Command.parse line).clause
      (∀ action, (Command.parse line).action? = some action → a.calls clause action = .ok (a.step line).2 ∨
        ∃ error, a.calls clause action = .error (.unreadable error) ∧
          (a.step line).1 = heading (Text.trimmed line) ++ complaint clause error ++ "\n") ∧
      (asks line = true → ∃ o, (session e limit verbose lines).outcomes[(before.filter asks).length]? = some o ∧
        (∃ texts fresh, Engine.ofTexts texts = .ok fresh ∧ fresh.Attained ∧
          fresh.knowledge.keys = a.engine.knowledge.keys) ∧
        ∀ fresh : Engine, fresh.Attained → fresh.knowledge.keys = a.engine.knowledge.keys →
          fresh.Answers limit clause o) := by
  have hsince := since_engine h.tidy h.filed limit verbose
  refine ⟨?_, ?_, fun before line rest hlines => ?_⟩
  · obtain ⟨-, -, hkeys, -⟩ := hsince.runAll lines
    obtain ⟨-, -, hkeys', -⟩ := hsince.runAll (lines.filter edits)
    rw [session, session, hkeys, hkeys', foldl_edited_filter]
  · obtain ⟨-, -, -, new, hnew, hlength⟩ := hsince.runAll lines
    rw [session, hnew, List.length_append, hlength]
    simp [outcomes]
  -- what is said of a line is said of the assistant as the lines before it leave it
  intro a clause
  obtain ⟨ha, hlimit, hkeys, new, hnew, hlength⟩ := hsince.runAll before
  refine ⟨fun action haction => ?_, fun hasks => ?_⟩
  · rw [step_of_action haction]
    rcases ha.calls_cases clause action with hok | ⟨error, herror, hprinted⟩
    · exact .inl hok
    · refine .inr ⟨error, herror, ?_⟩
      rw [← hprinted]
      rfl
  · obtain ⟨goal, r, e₁, hparse, hrun, houtcome⟩ := ha.step_of_asks hasks
    have hwritten := written_foldl_edited h.written before
    rw [← hkeys] at hwritten
    -- the lines after it add outcomes, and leave this one as it is
    obtain ⟨-, -, -, more, hmore, -⟩ := (ha.step line).1.runAll rest
    refine ⟨e₁.outcome r, ?_, ha.tidy.exists_fresh hwritten, fun fresh hfresh hknown => ?_⟩
    · rw [session, hlines, runAll_append, runAll_cons, hmore, houtcome, hnew]
      simp [outcomes, ← hlength]
    · have hanswers := ha.answers hparse hrun hfresh hknown
      rwa [hlimit] at hanswers

/-- The second query comes after a clause was learnt, used and forgotten again, and after one that cannot be read. -/
theorem replays_learnt_and_forgotten :
    let e := (Step.performAll [.add "p v q"] {}).2.engine
    let before := ["~p+", "q?", "v p+", "~p-"]
    e.Attained ∧ (before ++ ["q?"]).filter edits = ["~p+", "~p-"] ∧ (before ++ ["q?"]).filter asks = ["q?", "q?"] ∧
      (session e none false (before ++ ["q?"])).engine.knowledge.keys =
        (session e none false ["~p+", "~p-"]).engine.knowledge.keys ∧
      (session e none false before).engine.knowledge.keys = e.knowledge.keys ∧
      (session e none false (before ++ ["q?"])).outcomes.map Outcome.verdict = [.proven 4, .unknown .fixpoint] ∧
      ∃ o, (session e none false (before ++ ["q?"])).outcomes[1]? = some o ∧ e.Answers none "q" o := by
  intro e before
  have h : e.Attained := ⟨_, rfl⟩
  have hedits : (before ++ ["q?"]).filter edits = ["~p+", "~p-"] := by decide +kernel
  have hasks : (before ++ ["q?"]).filter asks = ["q?", "q?"] := by decide +kernel
  have hknown : (session e none false before).engine.knowledge.keys = e.knowledge.keys := by decide +kernel
  have hverdicts : (session e none false (before ++ ["q?"])).outcomes.map Outcome.verdict =
      [.proven 4, .unknown .fixpoint] := by decide +kernel
  have hclause : (Command.parse "q?").clause = "q" := by decide +kernel
  have hone : (before.filter asks).length = 1 := by decide +kernel
  have hask : asks "q?" = true := by decide +kernel
  clear_value e before
  obtain ⟨hkeys, -, hlines⟩ := replays h none false (before ++ ["q?"])
  obtain ⟨o, ho, -, hanswers⟩ := (hlines before "q?" [] rfl).2 hask
  rw [hedits] at hkeys
  rw [hone] at ho
  rw [hclause] at hanswers
  exact ⟨h, hedits, hasks, hkeys, hknown, hverdicts, o, ho, hanswers e h hknown.symm⟩

end Assistant

end Clausal
