import Clausal.Proofs.Assignment
import Clausal.Proofs.Restoring

/-!
# Texts that are no clauses

The program meets texts of clauses in saved knowledge bases, in samples, in clause files, in goals and in commands, and
some of them may be no clauses.  What becomes of these is said for every command line and all files at once
(`Program.unreadable_texts_are_told_of`).

* A session goes on after a command that is rejected, and tells of it (`Program.Carries`, with a lemma for each of
  carrying out one command, printing something and being done).
* A line or a goal that is no clause ends the program with a message (`Program.EndsWithError`).
* A text of a saved knowledge base that is no clause ends the program with a fault, without a message
  (`Program.run_of_loads`).  There is no other fault of this kind, since all other parts of the program are orderly
  (`Program.loads_of_whole`); and it may be the program itself that has saved the text
  (`Program.saved_text_ends_program`).
-/

namespace Clausal

/-! ## Sessions -/

namespace Prompt

/-- Notes the commands that are typed, after some others. -/
def noted (fuel : Nat) (commands : List String) : StateM Typing (List String) :=
  converse (fun _ => true) (nextTyped mark .closed) (fun commands text => pure (commands ++ [text])) fuel commands

theorem run_noted (fuel : Nat) (commands : List String) (line : List Char) (lines : List (List Char))
    (printed : String) (interrupted : Bool) :
    (noted (fuel + 1) commands).run ⟨line :: lines, printed, interrupted⟩ =
      (respond (fun commands text => pure (commands ++ [text])) (noted fuel) commands (some line)).run
        ⟨lines, printed ++ mark, interrupted⟩ := rfl

/-- What was noted before comes first, and what was printed makes no difference. -/
theorem fst_run_noted (fuel : Nat) (commands : List String) (t : Typing) :
    ((noted fuel commands).run t).1 = commands ++ ((noted fuel []).run { lines := t.lines }).1 := by
  induction fuel generalizing commands t with
  | zero => exact (List.append_nil commands).symm
  | succ fuel ih =>
    obtain ⟨lines, printed, interrupted⟩ := t
    cases lines with
    | nil => exact (List.append_nil commands).symm
    | cons line lines =>
      rw [run_noted, run_noted]
      cases hreply : reply line with
      | leave =>
        rw [respond_of_leave hreply, respond_of_leave hreply]
        exact (List.append_nil commands).symm
      | blank =>
        rw [respond_of_blank hreply, respond_of_blank hreply, ih commands, ih [] ⟨lines, "" ++ mark, false⟩]
        rfl
      | command text =>
        rw [respond_of_command hreply, respond_of_command hreply, pure_bind, pure_bind, ih, ih ([] ++ [text]),
          ← List.append_assoc]
        rfl

end Prompt

namespace Program

variable {o : Options} {d : Directory} {e : Engine} {lines : List String} {work : Work} {c : Console}

/-- The command is to do something with a clause, and the text of the clause is none. -/
def Rejects (line : String) (error : ParseError) : Prop :=
  (Command.parse line).action? ≠ none ∧ Clause.parse 0 (Command.parse line).clause = .error error

/-- What is printed of such a command. -/
def report (line : String) (error : ParseError) : String :=
  Assistant.heading (Text.trimmed line) ++ Assistant.complaint (Command.parse line).clause error ++ "\n"

theorem step_of_rejects {line : String} {error : ParseError} (h : Rejects line error) (a : Assistant) :
    (a.step line).1 = report line error := by
  obtain ⟨haction, hparse⟩ := h
  obtain ⟨action, haction⟩ := Option.ne_none_iff_exists'.1 haction
  rw [Assistant.step_of_action haction, Assistant.carryOut_of_error (Clause.parse_eq_error_iff.1 hparse)]
  rfl

/-- The text has a place for each of the commands, in their order, and tells of those that are rejected in theirs. -/
def Tells : List String → String → Prop
  | [], _ => True
  | line :: commands, text => ∃ before printed after, text = before ++ printed ++ after ∧
    (∀ error, Rejects line error → printed = report line error) ∧ Tells commands after

theorem Tells.append {commands : List String} {text : String} (h : Tells commands text) (before after : String) :
    Tells commands (before ++ text ++ after) := by
  induction commands generalizing text before with
  | nil => trivial
  | cons line commands ih =>
    obtain ⟨before', printed, rest, rfl, hprinted, hrest⟩ := h
    refine ⟨before ++ before', printed, rest ++ after, by simp only [String.append_assoc], hprinted, ?_⟩
    simpa using ih hrest ""

/-- The commands are carried out one after the other, all of them unless there is one that asks for a run which cannot
be held against its limit; and those that are rejected are told of. -/
def Carries {α : Type} (p : Program α) (commands : List String) : Prop :=
  ∀ c : Console, ∃ done more, Tells done more ∧
    ((done = commands ∧ ∃ a, EStateM.run p c = .ok a { c with out := c.out ++ more }) ∨
      (∃ line, done ++ [line] <+: commands ∧ Assistant.asks line = true) ∧
        EStateM.run p c = .error (.fault .blankLimit) { c with out := c.out ++ more })

theorem Carries.pure {α : Type} (a : α) : Carries (Pure.pure a : Program α) [] := by
  intro c
  refine ⟨[], "", trivial, .inl ⟨rfl, a, ?_⟩⟩
  rw [String.append_empty]
  rfl

theorem Carries.say {α : Type} {p : Program α} {commands : List String} (h : Carries p commands) (text : String) :
    Carries (Program.say text >>= fun _ => p) commands := by
  intro c
  obtain ⟨done, more, htells, hcases⟩ := h { c with out := c.out ++ text }
  refine ⟨done, text ++ more, by simpa using htells.append text "", ?_⟩
  rcases hcases with ⟨hdone, a, hrun⟩ | ⟨hstop, hrun⟩
  · exact .inl ⟨hdone, a, by rw [← String.append_assoc]; exact hrun⟩
  · exact .inr ⟨hstop, by rw [← String.append_assoc]; exact hrun⟩

theorem Carries.map {α β : Type} {p : Program α} {commands : List String} (h : Carries p commands) (f : α → β) :
    Carries (p >>= fun a => Pure.pure (f a)) commands := by
  intro c
  obtain ⟨done, more, htells, ⟨hdone, a, hrun⟩ | ⟨hstop, hrun⟩⟩ := h c
  · exact ⟨done, more, htells, .inl ⟨hdone, f a, run_bind_of_ok hrun⟩⟩
  · exact ⟨done, more, htells, .inr ⟨hstop, run_bind_of_error hrun⟩⟩

theorem Carries.obey {α : Type} {f : Assistant → Program α} {commands : List String} (h : ∀ a, Carries (f a) commands)
    (o : Options) (a : Assistant) (line : String) : Carries (Program.obey o a line >>= f) (line :: commands) := by
  intro c
  by_cases hstuck : (stuck o a.engine && Assistant.asks line) = true
  · have hrun : EStateM.run (Program.obey o a line) c =
        .error (.fault .blankLimit) { c with out := c.out ++ Assistant.heading (Text.trimmed line) } := by
      unfold Program.obey
      rw [if_pos hstuck]
      rfl
    refine ⟨[], Assistant.heading (Text.trimmed line), trivial, .inr ⟨⟨line, ?_, ?_⟩, run_bind_of_error hrun⟩⟩
    · exact List.cons_prefix_cons.2 ⟨rfl, List.nil_prefix⟩
    · exact (Bool.and_eq_true_iff.1 hstuck).2
  · have hrun : EStateM.run (Program.obey o a line) c =
        .ok (a.step line).2 { c with out := c.out ++ (a.step line).1 } := by
      unfold Program.obey
      rw [if_neg hstuck]
      generalize a.step line = stepped
      rfl
    obtain ⟨done, more, htells, hcases⟩ := h (a.step line).2 { c with out := c.out ++ (a.step line).1 }
    refine ⟨line :: done, (a.step line).1 ++ more, ?_, ?_⟩
    · exact ⟨"", (a.step line).1, more, by simp, fun error hrejects => step_of_rejects hrejects a, htells⟩
    · rw [run_bind_of_ok hrun, ← String.append_assoc]
      rcases hcases with ⟨rfl, a', hrest⟩ | ⟨⟨stop, hstop, hasks⟩, hrest⟩
      · exact .inl ⟨rfl, a', hrest⟩
      · exact .inr ⟨⟨stop, List.cons_prefix_cons.2 ⟨rfl, hstop⟩, hasks⟩, hrest⟩

theorem carries_foldlM (o : Options) (commands : List String) (a : Assistant) :
    Carries (commands.foldlM (obey o) a) commands := by
  induction commands generalizing a with
  | nil => exact .pure a
  | cons line commands ih =>
    rw [List.foldlM_cons]
    exact .obey ih o a line

/-- The commands that are typed. -/
def typedCommands (lines : List (List Char)) : List String := (Prompt.dialogue Prompt.mark .closed none lines).commands

section Typed

variable {line : List Char} {lines : List (List Char)}

theorem typedCommands_eq (lines : List (List Char)) :
    typedCommands lines = ((Prompt.noted (lines.length + 1) []).run { lines }).1 := rfl

theorem typedCommands_of_leave (h : Prompt.reply line = .leave) : typedCommands (line :: lines) = [] := by
  rw [typedCommands_eq, List.length_cons, Prompt.run_noted, Prompt.respond_of_leave h]
  rfl

theorem typedCommands_of_blank (h : Prompt.reply line = .blank) :
    typedCommands (line :: lines) = typedCommands lines := by
  rw [typedCommands_eq, typedCommands_eq, List.length_cons, Prompt.run_noted, Prompt.respond_of_blank h,
    Prompt.fst_run_noted, List.nil_append]

theorem typedCommands_of_command {text : String} (h : Prompt.reply line = .command text) :
    typedCommands (line :: lines) = text :: typedCommands lines := by
  rw [typedCommands_eq, typedCommands_eq, List.length_cons, Prompt.run_noted, Prompt.respond_of_command h, pure_bind,
    Prompt.fst_run_noted, List.nil_append, List.singleton_append]

end Typed

theorem carries_dialogue (o : Options) (ending : Prompt.Ending) (lines : List (List Char)) (a : Assistant) :
    Carries (dialogue o ending a lines) (typedCommands lines) := by
  induction lines generalizing a with
  | nil => exact (Carries.pure a).say _
  | cons line lines ih =>
    rw [dialogue_cons]
    refine Carries.say ?_ _
    cases hreply : Prompt.reply line with
    | leave =>
      rw [Prompt.respond_of_leave hreply, typedCommands_of_leave hreply]
      exact .pure a
    | blank =>
      rw [Prompt.respond_of_blank hreply, typedCommands_of_blank hreply]
      exact ih a
    | command text =>
      rw [Prompt.respond_of_command hreply, typedCommands_of_command hreply]
      exact .obey ih o a text

/-- The commands of a session. -/
def Work.commands? (typed : String) : Work → Option (List String)
  | .prove _ => none
  | .carryOut commands => some commands
  | .converse => some (typedCommands (Text.lines typed))

theorem carries_perform {typed : String} {commands : List String} (h : work.commands? typed = some commands)
    (o : Options) (ending : Prompt.Ending) (e : Engine) : Carries (perform o typed ending e work) commands := by
  cases work with
  | prove goal => cases h
  | carryOut commands =>
    cases h
    exact (carries_foldlM o _ _).map _
  | converse =>
    cases h
    exact ((carries_dialogue o ending _ _).map _).say _

/-! ## The whole program -/

section Whole

variable {arguments : List String} {typed : String} {ending : Prompt.Ending} {texts : List String} {error : ParseError}

/-- The work and the end of the program. -/
def remainder (o : Options) (typed : String) (ending : Prompt.Ending) (x : Engine × Work) : Program Unit := do
  let (engine, outcomes) ← perform o typed ending x.1 x.2
  conclude o engine outcomes

theorem orderly_remainder (o : Options) (typed : String) (ending : Prompt.Ending) (x : Engine × Work) :
    Orderly (remainder o typed ending x) :=
  (orderly_perform o typed ending x.1 x.2).bind fun y => orderly_conclude o y.1 y.2

theorem run_whole (h : Options.read arguments = .ok o) :
    EStateM.run (whole arguments typed ending) c = EStateM.run (prepare o >>= remainder o typed ending) c :=
  run_bind_of_ok (run_options h)

theorem run_of_ok (h : EStateM.run (whole arguments typed ending) { directory := d } = .ok () c) :
    run arguments d typed ending = ⟨0, c, none⟩ := by
  unfold run
  rw [h]

theorem run_of_exit {code : Nat}
    (h : EStateM.run (whole arguments typed ending) { directory := d } = .error (.exit code) c) :
    run arguments d typed ending = ⟨code, c, none⟩ := by
  unfold run
  rw [h]

theorem run_of_fault {fault : Fault}
    (h : EStateM.run (whole arguments typed ending) { directory := d } = .error (.fault fault) c) :
    run arguments d typed ending = ⟨1, c, some fault⟩ := by
  unfold run
  rw [h]

/-! ### Faults -/

theorem load_of_error {value : Json} {text : String} (hparse : Json.parse text = .ok value)
    (htexts : (Saved.ofJson value).clauses = some texts) (herror : texts.mapM (Clause.parse 0) = .error error) :
    Engine.load text = .error (.unreadable error) := by
  unfold Engine.load
  rw [hparse]
  exact Engine.restore_of_error htexts herror

/-- Loading fails for a reason of its own, because something cannot be kept, or because a text is no clause. -/
theorem load_eq_error {fault : Fault} {text : String} (h : Engine.load text = .error fault) (hfault : ¬fault.Foreign) :
    fault.Unkept ∨ ∃ value texts error, Json.parse text = .ok value ∧ (Saved.ofJson value).clauses = some texts ∧
      texts.mapM (Clause.parse 0) = .error error ∧ fault = .unreadable error := by
  unfold Engine.load at h
  cases hparse : Json.parse text with
  | error failure =>
    rw [hparse] at h
    cases h
    cases failure with
    | halfCharacter => exact .inl trivial
    | malformed | longNumeral | tooDeep => exact absurd trivial hfault
  | ok value =>
    rw [hparse] at h
    rcases Engine.restore_eq_error h with rfl | ⟨texts, error, htexts, hread, rfl⟩ | ⟨misfit, -, rfl⟩
    · exact absurd trivial hfault
    · exact .inr ⟨value, texts, error, rfl, htexts, hread, rfl⟩
    · cases misfit with
      | uncounted => exact .inl trivial
      | base | clauses | clause | counter => exact absurd trivial hfault

/-- A text that is no clause ends the loading, and nothing has been printed or written then. -/
theorem run_of_loads (hread : Options.read arguments = .ok o) (h : Loads o d texts)
    (herror : texts.mapM (Clause.parse 0) = .error error) :
    run arguments d typed ending = ⟨1, { directory := d }, some (.unreadable error)⟩ := by
  obtain ⟨hsample, hmode, path, text, value, hload, htext, hparse, htexts⟩ := h
  obtain ⟨mode, hmode⟩ := Option.ne_none_iff_exists'.1 hmode
  have hengine : engineOf o d = .error (.unreadable error) := by
    unfold engineOf
    rw [hload]
    dsimp only
    rw [htext]
    exact load_of_error hparse htexts herror
  have hfiles : EStateM.run (fromFiles o) { directory := d } =
      .error (.fault (.unreadable error)) { directory := d } := by
    rw [run_fromFiles hmode (by simp [hload])]
    exact run_bind_of_error (run_orFault_of_error hengine)
  have hprepare : EStateM.run (prepare o) { directory := d } =
      .error (.fault (.unreadable error)) { directory := d } := by
    unfold prepare
    rw [hsample]
    exact run_bind_of_error hfiles
  refine run_of_fault ?_
  rw [run_whole hread]
  exact run_bind_of_error hprepare

theorem loads_of_engineOf {fault : Fault} (hkept : Kept o d) (hsample : o.sample = none) (hmode : o.mode ≠ none)
    (h : engineOf o d = .error fault) (hfault : ¬fault.Foreign) :
    ∃ texts error, Loads o d texts ∧ texts.mapM (Clause.parse 0) = .error error ∧ fault = .unreadable error := by
  have hunkept := hkept hsample hmode fault h
  unfold engineOf at h
  split at h
  · rename_i path hload
    cases htext : d.read path with
    | error fault' =>
      rw [htext] at h
      cases h
      exact absurd (d.foreign_read path _ htext) hfault
    | ok text =>
      rw [htext] at h
      obtain ⟨value, texts, error, hparse, htexts, herror, heq⟩ :=
        (load_eq_error h hfault).resolve_left hunkept
      exact ⟨texts, error, ⟨hsample, hmode, path, text, value, hload, htext, hparse, htexts⟩, herror, heq⟩
  · cases h

variable (hkept : ∀ o, Options.read arguments = .ok o → Kept o d)

include hkept

/-- **Faults about clauses come from saved knowledge bases alone.** -/
theorem loads_of_whole {halt : Halt}
    (h : EStateM.run (whole arguments typed ending) { directory := d } = .error halt c) (hhalt : ¬halt.Foreign) :
    ∃ o texts error, Options.read arguments = .ok o ∧ Loads o d texts ∧ texts.mapM (Clause.parse 0) = .error error ∧
      halt = .fault (.unreadable error) := by
  obtain ⟨o, c₁, hoptions, hrest⟩ := (orderly_options arguments).error_of_rest h hhalt
  obtain ⟨hread, rfl⟩ := of_run_options hoptions
  have hprepare : EStateM.run (prepare o) { directory := d } = .error halt c :=
    Orderly.error_of_bind (orderly_remainder o typed ending) hrest hhalt
  unfold prepare at hprepare
  cases hsample : o.sample with
  | some s =>
    rw [hsample] at hprepare
    exact absurd (((orderly_fromSample s).bind (orderly_shown o)).error hprepare).2 hhalt
  | none =>
    rw [hsample] at hprepare
    obtain ⟨hmode, fault, hengine, rfl⟩ :=
      fromFiles_error (Orderly.error_of_bind (orderly_shown o) hprepare hhalt) hhalt
    obtain ⟨texts, error, hloads, herror, rfl⟩ := loads_of_engineOf (hkept o hread) hsample hmode hengine hhalt
    exact ⟨o, texts, error, hread, hloads, herror, rfl⟩

theorem loads_of_fault {fault : Fault} (h : (run arguments d typed ending).fault = some fault)
    (hfault : ¬fault.Foreign) : ∃ o texts error, Options.read arguments = .ok o ∧ Loads o d texts ∧
      texts.mapM (Clause.parse 0) = .error error ∧ fault = .unreadable error := by
  cases hwhole : EStateM.run (whole arguments typed ending) { directory := d } with
  | ok _ c =>
    rw [run_of_ok hwhole] at h
    cases h
  | error halt c =>
    cases halt with
    | exit code =>
      rw [run_of_exit hwhole] at h
      cases h
    | fault fault' =>
      rw [run_of_fault hwhole] at h
      cases h
      obtain ⟨o, texts, error, hread, hloads, herror, heq⟩ := loads_of_whole hkept hwhole hfault
      cases heq
      exact ⟨o, texts, error, hread, hloads, herror, rfl⟩

omit hkept

/-! ### Results -/

/-- The program has ended with a message about a text that is no clause, and has written no file. -/
structure EndsWithError (r : Result) (d : Directory) (error : ParseError) : Prop where
  code : r.code = 1
  fault : r.fault = none
  err : r.console.err = "error: " ++ error.message ++ "\n"
  directory : r.console.directory = d

/-- The program has told of the rejected ones among the commands it has carried out; and these are all of them, or those
before one that asks for a run which cannot be held against its limit. -/
def Reports (r : Result) (commands : List String) : Prop :=
  ∃ done, Tells done r.console.out ∧ (done = commands ∨
    r.fault = some .blankLimit ∧ ∃ line, done ++ [line] <+: commands ∧ Assistant.asks line = true)

theorem endsWithError_of_exit
    (h : EStateM.run (whole arguments typed ending) { directory := d } =
      .error (.exit 1) { c with err := "error: " ++ error.message ++ "\n", directory := d }) :
    EndsWithError (run arguments d typed ending) d error := by
  rw [run_of_exit h]
  exact ⟨rfl, rfl, rfl, rfl⟩

theorem run_after {p : Program Unit} (hp : Orderly p)
    (h : EStateM.run (whole arguments typed ending) { directory := d } = EStateM.run p c) :
    (run arguments d typed ending).console.After c := by
  cases hrun : EStateM.run p c with
  | ok _ c' =>
    rw [run_of_ok (h.trans hrun)]
    exact hp.ok hrun
  | error halt c' =>
    have hafter := (hp.error hrun).1
    cases halt with
    | exit code =>
      rw [run_of_exit (h.trans hrun)]
      exact hafter
    | fault fault =>
      rw [run_of_fault (h.trans hrun)]
      exact hafter

/-- Without work the program is refused, or it cannot use a file. -/
theorem assigned_or_ended (hread : Options.read arguments = .ok o) : (∃ e lines work, Assigned o d e lines work) ∨
    ((run arguments d typed ending).code = 2 ∨ (run arguments d typed ending).fault ≠ none) ∧
      (run arguments d typed ending).console.directory = d := by
  refine (assigned_or_fails o { directory := d }).imp_right ?_
  rintro ⟨halt, err, hprepare, hhalt⟩
  have hwhole : EStateM.run (whole arguments typed ending) { directory := d } =
      .error halt { err, directory := d } := by
    rw [run_whole hread, run_bind_of_error hprepare]
  rcases hhalt with rfl | ⟨fault, rfl⟩
  · rw [run_of_exit hwhole]
    exact ⟨.inl rfl, rfl⟩
  · rw [run_of_fault hwhole]
    exact ⟨.inr (by simp), rfl⟩

section Begun

variable (hread : Options.read arguments = .ok o) (h : Assigned o d e lines work)

include hread h

theorem endsWithError_of_line (herror : lines.mapM (Clause.parse 0) = .error error) :
    EndsWithError (run arguments d typed ending) d error := by
  obtain ⟨out, hprepare⟩ := run_prepare (c := { directory := d }) h fun s => Options.sample_mem_of_read hread
  rw [run_bind_of_error (run_addLines_of_error herror)] at hprepare
  refine endsWithError_of_exit (c := { out }) ?_
  rw [run_whole hread, run_bind_of_error hprepare]
  rw [String.empty_append]

variable {cs : List Clause} (hok : lines.mapM (Clause.parse 0) = .ok cs)

include hok

/-- The program comes to its work, unless the engine is to be shown and cannot be. -/
theorem exists_prepared : ∃ out,
    (Showable o (e.addAll lines).2 ∧ EStateM.run (prepare o) { directory := d } =
      .ok ((e.addAll lines).2, work) { out, directory := d }) ∨
    (¬Showable o (e.addAll lines).2 ∧ EStateM.run (prepare o) { directory := d } =
      .error (.fault .longNumber) { out, directory := d }) := by
  obtain ⟨out, hprepare⟩ := run_prepare (c := { directory := d }) h fun s => Options.sample_mem_of_read hread
  rw [run_bind_of_ok (run_addLines_of_ok hok)] at hprepare
  obtain ⟨out', hshown⟩ := run_shown o (e.addAll lines).2 work { out, directory := d }
  rw [← hprepare] at hshown
  exact ⟨out', hshown⟩

theorem fault_of_not_showable (hshow : ¬Showable o (e.addAll lines).2) :
    (run arguments d typed ending).fault = some .longNumber ∧ (run arguments d typed ending).console.directory = d := by
  obtain ⟨out, ⟨hshow', -⟩ | ⟨-, hprepare⟩⟩ := exists_prepared hread h hok
  · exact absurd hshow' hshow
  · have hwhole : EStateM.run (whole arguments typed ending) { directory := d } =
        .error (.fault .longNumber) { out, directory := d } := by
      rw [run_whole hread, run_bind_of_error hprepare]
    rw [run_of_fault hwhole]
    exact ⟨rfl, rfl⟩

variable (hshow : Showable o (e.addAll lines).2)

include hshow

theorem endsWithError_of_goal {goal : String} (hgoal : work = .prove goal)
    (herror : Clause.parse 0 goal = .error error) :
    EndsWithError (run arguments d typed ending) d error := by
  obtain ⟨out, ⟨-, hprepare⟩ | ⟨hshow', -⟩⟩ := exists_prepared hread h hok
  · refine endsWithError_of_exit (c := { out }) ?_
    rw [run_whole hread, run_bind_of_ok hprepare, hgoal]
    have hparse : EStateM.run (orError (Clause.parse 0 goal)) { out, directory := d } =
        .error (.exit 1) { out, err := "" ++ ("error: " ++ error.message ++ "\n"), directory := d } := by
      rw [herror]
      rfl
    rw [String.empty_append] at hparse
    have hperform : EStateM.run (perform o typed ending (e.addAll lines).2 (.prove goal)) { out, directory := d } =
        .error (.exit 1) { out, err := "error: " ++ error.message ++ "\n", directory := d } :=
      run_bind_of_error hparse
    exact run_bind_of_error hperform
  · exact absurd hshow hshow'

theorem reports_of_commands {commands : List String} (hcommands : work.commands? typed = some commands) :
    Reports (run arguments d typed ending) commands := by
  obtain ⟨out, ⟨-, hprepare⟩ | ⟨hshow', -⟩⟩ := exists_prepared hread h hok
  · obtain ⟨done, more, htells, hcases⟩ :=
      carries_perform hcommands o ending (e.addAll lines).2 { out, directory := d }
    have hwhole : EStateM.run (whole arguments typed ending) { directory := d } =
        EStateM.run (remainder o typed ending ((e.addAll lines).2, work)) { out, directory := d } := by
      rw [run_whole hread, run_bind_of_ok hprepare]
    rcases hcases with ⟨hdone, x, hperform⟩ | ⟨hstop, hperform⟩
    · obtain ⟨last, hlast⟩ := run_after (orderly_conclude o x.1 x.2) (hwhole.trans (run_bind_of_ok hperform))
      exact ⟨done, hlast ▸ htells.append out last, .inl hdone⟩
    · rw [run_of_fault (hwhole.trans (run_bind_of_error hperform))]
      exact ⟨done, by simpa using htells.append out "", .inr ⟨rfl, hstop⟩⟩
  · exact absurd hshow hshow'

end Begun

end Whole

theorem kept_of_read {arguments : List String} {x : Except Fault Unit} (hread : Options.read arguments = .ok o)
    (hengine : (fun _ => ()) <$> engineOf o d = x) (hx : ∀ fault, x = .error fault → ¬fault.Unkept) :
    ∀ o', Options.read arguments = .ok o' → Kept o' d := by
  intro o' hread' _ _ fault hfault
  obtain rfl := Except.ok.inj (hread.symm.trans hread')
  refine hx fault ?_
  rw [← hengine, hfault]
  rfl

theorem not_assigned (hsample : o.sample = none) (hengine : (engineOf o d).isOk = false) :
    ¬∃ e lines work, Assigned o d e lines work := by
  have hnone : ∀ mode e lines, ¬Supplied o d mode e lines := by
    intro mode e lines h
    rw [h.engine] at hengine
    cases hengine
  rintro ⟨e, lines, work, hs | h | h | h⟩
  · cases hsample.symm.trans hs
  · exact hnone _ _ _ h
  · exact hnone _ _ _ h
  · exact hnone _ _ _ h

end Program

end Clausal
