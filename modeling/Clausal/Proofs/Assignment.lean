import Clausal.Proofs.Construction
import Clausal.Proofs.Programs

/-!
# The beginning of the program

What the program makes of its options and files before it does anything: an engine to begin with, the texts of clauses
to add to it, and the work (`Program.Assigned`).  The lines are then added and the engine is shown
(`Program.run_prepare`).  Where there is no such assignment the program ends before it has added a clause
(`Program.assigned_or_fails`).
-/

namespace Clausal

/-! ## Samples -/

/-- Only samples that there are come out of a command line. -/
def Reading.Offers (r : Reading) : Prop := ∀ s, r.options.sample = some s → s ∈ Sample.all

namespace Reading

variable {r r' : Reading}

theorem Offers.raise (h : r.Offers) {f : Flag} (hraise : r.raise f = .ok r') : r'.Offers := by
  cases f with
  | help => cases hraise
  | interactive | verbose | history =>
    cases hraise
    exact h

theorem Offers.assign (h : r.Offers) {setting : Setting} {value : String} (hassign : r.assign setting value = .ok r') :
    r'.Offers := by
  unfold Reading.assign at hassign
  cases setting with
  | domain =>
    dsimp only at hassign
    unfold Sample.find at hassign
    split at hassign
    · rename_i s hfind
      cases hassign
      split at hfind
      · rename_i s' hs'
        cases hfind
        rintro _ ⟨⟩
        exact List.mem_of_find?_eq_some hs'
      · cases hfind
    · cases hassign
  | maxRounds =>
    dsimp only at hassign
    split at hassign
    · cases hassign
      exact h
    · cases hassign
  | dot | save | load =>
    cases hassign
    exact h

theorem Offers.attach (h : r.Offers) {s : Switch} {value : String} (hattach : r.attach s value = .ok r') :
    r'.Offers := by
  unfold Reading.attach at hattach
  cases s with
  | flag f => cases hattach
  | setting setting =>
    dsimp only at hattach
    split at hattach
    · cases hattach
      cases setting with
      | domain => rintro s ⟨⟩
      | maxRounds | dot | save | load => exact h
    · exact h.assign hattach

theorem Offers.switches (h : r.Offers) {filled : Bool} {arguments rest : List Argument}
    (hread : Reading.switches filled arguments r = .ok (r', rest)) : r'.Offers := by
  fun_induction Reading.switches filled arguments r with
  | case1 r =>
    cases hread
    exact h
  | case2 r text rest ih => exact ih h hread
  | case3 s value rest r ih =>
    obtain ⟨r₁, hattach, hread⟩ := exists_of_bind_eq_ok hread
    exact ih r₁ (h.attach hattach) hread
  | case4 f rest r ih =>
    obtain ⟨r₁, hraise, hread⟩ := exists_of_bind_eq_ok hread
    exact ih r₁ (h.raise hraise) hread
  | case5 setting value rest r ih =>
    obtain ⟨r₁, hassign, hread⟩ := exists_of_bind_eq_ok hread
    exact ih r₁ (h.assign hassign) hread
  | case6 => cases hread
  | case7 text rest r hfilled ih => exact ih h hread
  | case9 rest r hfilled ih => exact ih h hread
  | case8 | case10 =>
    cases hread
    exact h

theorem Offers.fill (h : r.Offers) {arguments rest : List Argument} (hfill : r.fill arguments = .ok (r', rest)) :
    r'.Offers := by
  unfold Reading.fill at hfill
  dsimp only at hfill
  split at hfill
  · cases hfill
    exact h
  split at hfill
  · cases hfill
    exact h
  · cases hfill

end Reading

theorem Options.sample_mem_of_read {arguments : List String} {o : Options} (h : Options.read arguments = .ok o)
    {s : Sample} (hs : o.sample = some s) : s ∈ Sample.all := by
  obtain ⟨classified, -, h⟩ := exists_of_bind_eq_ok h
  obtain ⟨⟨r₁, rest₁⟩, hfirst, h⟩ := exists_of_bind_eq_ok h
  obtain ⟨⟨r₂, rest₂⟩, hfill, h⟩ := exists_of_bind_eq_ok h
  obtain ⟨⟨r₃, rest₃⟩, hlast, h⟩ := exists_of_bind_eq_ok h
  have hfresh : Reading.Offers {} := by rintro _ ⟨⟩
  have hoffers := ((hfresh.switches hfirst).fill hfill).switches hlast
  dsimp only at h
  split at h
  · cases h
    exact hoffers s hs
  · cases h

/-- What a sample says can be read. -/
theorem Sample.readable : ∀ s ∈ Sample.all, (s.knowledge.mapM (Clause.parse 0)).isOk = true ∧
    ∀ goal ∈ s.goal?, (Clause.parse 0 goal).isOk = true := by
  decide +kernel

/-! ## Files -/

namespace Program

variable {o : Options} {d : Directory} {e : Engine} {lines : List String} {work : Work} {c : Console}

/-- The engine that the clauses of the clause file are added to. -/
def engineOf (o : Options) (d : Directory) : Except Fault Engine :=
  match given o.load with
  | some path => d.read path >>= Engine.load
  | none => .ok {}

/-- The lines of the clause file. -/
def linesOf (o : Options) (d : Directory) : Except Fault (List String) :=
  match given o.clauses with
  | some path => ClauseFile.read <$> d.read path
  | none => .ok []

/-- The files lead to an engine and lines: they are asked for, and can be read. -/
structure Supplied (o : Options) (d : Directory) (mode : Mode) (e : Engine) (lines : List String) : Prop where
  sample : o.sample = none
  mode : o.mode = some mode
  source : ¬(o.clauses.isNone && (given o.load).isNone) = true
  engine : engineOf o d = .ok e
  lines : linesOf o d = .ok lines

/-- The work on a sample. -/
def workOn (s : Sample) : Work :=
  match s.task with
  | .prove goal => .prove goal
  | .carryOut commands => .carryOut commands

/-- The work of the program: the engine it begins with, the texts of the clauses to add, and what is to be done then. -/
inductive Assigned (o : Options) (d : Directory) : Engine → List String → Work → Prop
  | sample {s : Sample} (hs : o.sample = some s) : Assigned o d {} s.knowledge (workOn s)
  | goal {e : Engine} {lines : List String} {goal : String} (h : Supplied o d .resolution e (lines ++ [goal])) :
    Assigned o d e lines (.prove goal)
  | commands {e : Engine} {lines : List String} {path text : String} (h : Supplied o d .cooking e lines)
    (hinteractive : o.interactive = false) (hpath : given o.commands = some path) (hread : d.read path = .ok text) :
    Assigned o d e lines (.carryOut (ClauseFile.read text))
  | typed {e : Engine} {lines : List String} (h : Supplied o d .cooking e lines) (hinteractive : o.interactive = true) :
    Assigned o d e lines .converse

/-- The texts of a saved knowledge base that the program loads. -/
def Loads (o : Options) (d : Directory) (texts : List String) : Prop :=
  o.sample = none ∧ o.mode ≠ none ∧ ∃ path text value, given o.load = some path ∧ d.read path = .ok text ∧
    Json.parse text = .ok value ∧ (Saved.ofJson value).clauses = some texts

/-- A saved knowledge base that the program loads, if there is one, has nothing in it that has no place in an engine. -/
def Kept (o : Options) (d : Directory) : Prop :=
  o.sample = none → o.mode ≠ none → ∀ fault, engineOf o d = .error fault → ¬fault.Unkept

/-! ## Reading files -/

theorem run_options {arguments : List String} (h : Options.read arguments = .ok o) :
    EStateM.run (options arguments) c = .ok o c := by
  unfold options
  rw [h]
  rfl

theorem of_run_options {arguments : List String} {c' : Console} (h : EStateM.run (options arguments) c = .ok o c') :
    Options.read arguments = .ok o ∧ c' = c := by
  unfold options at h
  split at h
  · rename_i o' hread
    cases h
    exact ⟨hread, rfl⟩
  · cases h
  · cases h

theorem run_orFault_of_error {α : Type} {x : Except Fault α} {fault : Fault} (h : x = .error fault) :
    EStateM.run (orFault x) c = .error (.fault fault) c := by
  rw [h]
  rfl

theorem of_run_orFault {α : Type} {x : Except Fault α} {halt : Halt} {c' : Console}
    (h : EStateM.run (orFault x) c = .error halt c') : ∃ fault, x = .error fault ∧ halt = .fault fault := by
  cases x with
  | ok a => cases h
  | error fault =>
    cases h
    exact ⟨fault, rfl, rfl⟩

theorem run_orFault_of_ok {α : Type} {x : Except Fault α} {a : α} (h : x = .ok a) :
    EStateM.run (orFault x) c = .ok a c := by
  rw [h]
  rfl

theorem run_readFile (path : String) (c : Console) :
    EStateM.run (readFile path) c = EStateM.run (orFault (c.directory.read path)) c := rfl

/-- The lines are added to an engine, up to the first one that is no clause. -/
def addLines (e : Engine) (lines : List String) (work : Work) : Program (Engine × Work) := do
  orError (e.addAll lines).1
  return ((e.addAll lines).2, work)

theorem run_addLines_of_error {error : ParseError} (h : lines.mapM (Clause.parse 0) = .error error) :
    EStateM.run (addLines e lines work) c =
      .error (.exit 1) { c with err := c.err ++ ("error: " ++ error.message ++ "\n") } := by
  have hadd := Engine.fst_addAll e lines
  rw [h] at hadd
  unfold addLines
  rw [hadd]
  rfl

theorem run_addLines_of_ok {cs : List Clause} (h : lines.mapM (Clause.parse 0) = .ok cs) :
    EStateM.run (addLines e lines work) c = .ok ((e.addAll lines).2, work) c := by
  have hadd := Engine.fst_addAll e lines
  rw [h] at hadd
  unfold addLines
  rw [hadd]
  rfl

/-- The clause file is read, and its lines are added to an engine. -/
def readLines (o : Options) (mode : Mode) (e : Engine) : Program (Engine × Work) := do
  let lines ← match given o.clauses with
    | some path => do pure (ClauseFile.read (← readFile path))
    | none => pure []
  let (lines, work) ← linesAndWork o mode lines
  addLines e lines work

theorem orderly_readLines (o : Options) (mode : Mode) (e : Engine) : Orderly (readLines o mode e) := by
  have hrest : ∀ lines, Orderly (do
      let (lines, work) ← linesAndWork o mode lines
      addLines e lines work) := fun lines =>
    (orderly_linesAndWork o mode lines).bind fun x => (Orderly.orError _).bind fun _ => .pure _
  unfold readLines
  dsimp only
  split
  · exact (Orderly.readFile _).bind fun text => (Orderly.pure _).bind hrest
  · exact (Orderly.pure _).bind hrest

theorem run_readLines (o : Options) (mode : Mode) (e : Engine) (c : Console) : EStateM.run (readLines o mode e) c =
    EStateM.run (do
      let lines ← orFault (linesOf o c.directory)
      let (lines, work) ← linesAndWork o mode lines
      addLines e lines work) c := by
  unfold readLines linesOf
  cases hclauses : given o.clauses with
  | none => rfl
  | some path =>
    dsimp only
    cases hread : c.directory.read path with
    | error fault => exact run_bind_of_error ((run_readFile path c).trans (run_orFault_of_error hread))
    | ok text => exact run_bind_of_ok ((run_readFile path c).trans (run_orFault_of_ok hread))

/-- The saved knowledge base is loaded first, and then the clause file is read. -/
theorem run_fromFiles {mode : Mode} (hmode : o.mode = some mode)
    (hsource : ¬(o.clauses.isNone && (given o.load).isNone) = true) (c : Console) :
    EStateM.run (fromFiles o) c = EStateM.run (orFault (engineOf o c.directory) >>= readLines o mode) c := by
  unfold fromFiles engineOf
  rw [hmode]
  dsimp only
  rw [if_neg hsource]
  cases hload : given o.load with
  | none => rfl
  | some path =>
    dsimp only
    cases hread : c.directory.read path with
    | error fault => exact run_bind_of_error ((run_readFile path c).trans (run_orFault_of_error hread))
    | ok text => exact run_bind_of_ok ((run_readFile path c).trans (run_orFault_of_ok hread))

theorem refused_or_run_fromFiles (o : Options) (c : Console) :
    (∃ error, EStateM.run (fromFiles o) c = EStateM.run (refuse error) c) ∨
      ∃ mode, o.mode = some mode ∧ ¬(o.clauses.isNone && (given o.load).isNone) = true ∧
        EStateM.run (fromFiles o) c = EStateM.run (orFault (engineOf o c.directory) >>= readLines o mode) c := by
  cases hmode : o.mode with
  | none =>
    refine .inl ⟨.modeRequired, ?_⟩
    unfold fromFiles
    rw [hmode]
  | some mode =>
    by_cases hsource : (o.clauses.isNone && (given o.load).isNone) = true
    · refine .inl ⟨.clausesRequired, ?_⟩
      unfold fromFiles
      rw [hmode]
      dsimp only
      rw [if_pos hsource]
      rfl
    · exact .inr ⟨mode, rfl, hsource, run_fromFiles hmode hsource c⟩

theorem run_fromFiles_of_supplied {mode : Mode} {all : List String} (h : Supplied o c.directory mode e all)
    (hwork : EStateM.run (linesAndWork o mode all) c = .ok (lines, work) c) :
    EStateM.run (fromFiles o) c = EStateM.run (addLines e lines work) c := by
  rw [run_fromFiles h.mode h.source, run_bind_of_ok (run_orFault_of_ok h.engine), run_readLines,
    run_bind_of_ok (run_orFault_of_ok h.lines), run_bind_of_ok hwork]

/-! ## The beginning -/

/-- The engine can be shown, if it is to be: no clause has a number that is too long to be written. -/
def Showable (o : Options) (e : Engine) : Prop :=
  o.verbose = true → ∀ c ∈ e.knowledge.toList, Text.isLong c.id = false

/-- Shows the engine, if it is to be shown. -/
def shown (o : Options) (x : Engine × Work) : Program (Engine × Work) := do
  if o.verbose then sayState x.1
  return x

theorem orderly_shown (o : Options) (x : Engine × Work) : Orderly (shown o x) := by
  unfold shown
  split
  · exact (orderly_sayState x.1).bind fun _ => .pure _
  · exact .pure _

theorem run_shown (o : Options) (e : Engine) (work : Work) (c : Console) :
    ∃ out, (Showable o e ∧ EStateM.run (shown o (e, work)) c = .ok (e, work) { c with out }) ∨
      (¬Showable o e ∧ EStateM.run (shown o (e, work)) c = .error (.fault .longNumber) { c with out }) := by
  unfold shown
  cases hverbose : o.verbose with
  | false =>
    refine ⟨c.out, .inl ⟨fun h => ?_, rfl⟩⟩
    rw [hverbose] at h
    cases h
  | true =>
    unfold sayState
    cases hlong : e.knowledge.toList.any fun c => Text.isLong c.id with
    | false =>
      refine ⟨c.out ++ e.stateText, .inl ⟨fun _ => ?_, rfl⟩⟩
      simpa using hlong
    | true =>
      refine ⟨c.out ++ e.stateTextBefore fun c => Text.isLong c.id, .inr ⟨fun h => ?_, rfl⟩⟩
      obtain ⟨d, hd, hbad⟩ := List.any_eq_true.1 hlong
      rw [h hverbose d hd] at hbad
      cases hbad

theorem run_linesAndWork_goal (lines : List String) (goal : String) :
    EStateM.run (linesAndWork o .resolution (lines ++ [goal])) c = .ok (lines, .prove goal) c := by
  simp only [linesAndWork, ClauseFile.splitGoal, List.dropLast_concat, List.getLast?_concat]
  rfl

theorem run_linesAndWork_commands (lines : List String) {path text : String} (hinteractive : o.interactive = false)
    (hpath : given o.commands = some path) (hread : c.directory.read path = .ok text) :
    EStateM.run (linesAndWork o .cooking lines) c = .ok (lines, .carryOut (ClauseFile.read text)) c := by
  have hwork : EStateM.run (cookingWork o) c = .ok (.carryOut (ClauseFile.read text)) c := by
    unfold cookingWork
    rw [hinteractive, hpath]
    exact run_bind_of_ok ((run_readFile path c).trans (run_orFault_of_ok hread))
  exact run_bind_of_ok hwork

theorem run_linesAndWork_typed (lines : List String) (hinteractive : o.interactive = true) :
    EStateM.run (linesAndWork o .cooking lines) c = .ok (lines, .converse) c := by
  have hwork : EStateM.run (cookingWork o) c = .ok .converse c := by
    unfold cookingWork
    rw [hinteractive]
    rfl
  exact run_bind_of_ok hwork

theorem run_prepare_of_supplied {mode : Mode} {all : List String} (h : Supplied o c.directory mode e all)
    (hwork : EStateM.run (linesAndWork o mode all) c = .ok (lines, work) c) :
    EStateM.run (prepare o) c = EStateM.run (addLines e lines work >>= shown o) c := by
  have hfiles := run_fromFiles_of_supplied h hwork
  unfold prepare
  rw [h.sample]
  dsimp only
  cases hrun : EStateM.run (addLines e lines work) c with
  | ok x c' =>
    rw [run_bind_of_ok (hfiles.trans hrun), run_bind_of_ok hrun]
    rfl
  | error halt c' =>
    rw [run_bind_of_error (hfiles.trans hrun), run_bind_of_error hrun]

theorem run_fromSample (s : Sample) (c : Console) :
    ∃ out, EStateM.run (fromSample s) c = .ok (s.engine, workOn s) { c with out } :=
  ⟨c.out ++ ("Domain: " ++ s.name ++ " -- " ++ s.description ++ "\n"), rfl⟩

/-- A sample is told of first, and all of it can be read. -/
theorem run_prepare_of_sample {s : Sample} (hs : o.sample = some s) (hmem : s ∈ Sample.all) :
    ∃ out, EStateM.run (prepare o) c = EStateM.run (addLines {} s.knowledge (workOn s) >>= shown o) { c with out } := by
  obtain ⟨out, hsample⟩ := run_fromSample s c
  have hreadable := (Sample.readable s hmem).1
  cases hread : s.knowledge.mapM (Clause.parse 0) with
  | error error =>
    rw [hread] at hreadable
    cases hreadable
  | ok cs =>
    refine ⟨out, ?_⟩
    unfold prepare
    rw [hs, run_bind_of_ok (run_addLines_of_ok hread)]
    exact run_bind_of_ok hsample

/-- **The beginning of the program**: the lines are added, and the engine is shown. -/
theorem run_prepare (h : Assigned o c.directory e lines work) (hoffers : ∀ s, o.sample = some s → s ∈ Sample.all) :
    ∃ out, EStateM.run (prepare o) c = EStateM.run (addLines e lines work >>= shown o) { c with out } := by
  cases h with
  | sample hs => exact run_prepare_of_sample hs (hoffers _ hs)
  | goal h => exact ⟨c.out, run_prepare_of_supplied h (run_linesAndWork_goal _ _)⟩
  | commands h hinteractive hpath hread =>
    exact ⟨c.out, run_prepare_of_supplied h (run_linesAndWork_commands _ hinteractive hpath hread)⟩
  | typed h hinteractive => exact ⟨c.out, run_prepare_of_supplied h (run_linesAndWork_typed _ hinteractive)⟩

/-! ## Where there is nothing to do -/

/-- A part of the program ends it: the command line is refused, or a file cannot be used. -/
def Fails {α : Type} (p : Program α) (c : Console) : Prop :=
  ∃ halt err, EStateM.run p c = .error halt { c with err } ∧ (halt = .exit 2 ∨ ∃ fault, halt = .fault fault)

section Fails

variable {α β : Type} {p : Program α} {f : α → Program β}

theorem Fails.bind (h : Fails p c) : Fails (p >>= f) c := by
  obtain ⟨halt, err, hrun, hhalt⟩ := h
  exact ⟨halt, err, run_bind_of_error hrun, hhalt⟩

theorem Fails.bind_of_ok {a : α} (hp : EStateM.run p c = .ok a c) (h : Fails (f a) c) : Fails (p >>= f) c := by
  obtain ⟨halt, err, hrun, hhalt⟩ := h
  exact ⟨halt, err, (run_bind_of_ok hp).trans hrun, hhalt⟩

theorem Fails.congr {q : Program α} (h : Fails q c) (hrun : EStateM.run p c = EStateM.run q c) : Fails p c := by
  obtain ⟨halt, err, hq, hhalt⟩ := h
  exact ⟨halt, err, hrun.trans hq, hhalt⟩

theorem fails_refuse (error : UsageError) (c : Console) : Fails (refuse error : Program α) c :=
  ⟨.exit 2, _, rfl, .inl rfl⟩

theorem fails_orFault {x : Except Fault α} {fault : Fault} (h : x = .error fault) (c : Console) : Fails (orFault x) c :=
  ⟨.fault fault, c.err, run_orFault_of_error h, .inr ⟨fault, rfl⟩⟩

end Fails

theorem assigned_or_fails_linesAndWork {mode : Mode} {all : List String} (h : Supplied o c.directory mode e all) :
    (∃ lines work, Assigned o c.directory e lines work) ∨ Fails (linesAndWork o mode all) c := by
  cases mode with
  | resolution =>
    rcases List.eq_nil_or_concat' all with rfl | ⟨lines, goal, rfl⟩
    · exact .inr (fails_refuse .goalRequired c)
    · exact .inl ⟨lines, _, .goal h⟩
  | cooking =>
    cases hinteractive : o.interactive with
    | true => exact .inl ⟨all, _, .typed h hinteractive⟩
    | false =>
      cases hpath : given o.commands with
      | none =>
        have hwork : cookingWork o = refuse .commandsRequired := by
          unfold cookingWork
          rw [hinteractive, hpath]
          rfl
        have hrefused : Fails (cookingWork o) c := hwork ▸ fails_refuse _ c
        exact .inr hrefused.bind
      | some path =>
        cases hread : c.directory.read path with
        | ok text => exact .inl ⟨all, _, .commands h hinteractive hpath hread⟩
        | error fault =>
          have hwork : cookingWork o = readFile path >>= fun text => pure (.carryOut (ClauseFile.read text)) := by
            unfold cookingWork
            rw [hinteractive, hpath]
            rfl
          have hfile : Fails (readFile path) c := (fails_orFault hread c).congr (run_readFile path c)
          have hcommands : Fails (cookingWork o) c := hwork ▸ hfile.bind
          exact .inr hcommands.bind

theorem assigned_or_fails_fromFiles (hsample : o.sample = none) (c : Console) :
    (∃ e lines work, Assigned o c.directory e lines work) ∨ Fails (fromFiles o) c := by
  rcases refused_or_run_fromFiles o c with ⟨error, hrun⟩ | ⟨mode, hmode, hsource, hrun⟩
  · exact .inr ((fails_refuse error c).congr hrun)
  cases hengine : engineOf o c.directory with
  | error fault => exact .inr (Fails.congr (fails_orFault hengine c).bind hrun)
  | ok e =>
    have hfails : Fails (readLines o mode e) c → Fails (fromFiles o) c :=
      fun h => Fails.congr (h.bind_of_ok (run_orFault_of_ok hengine)) hrun
    cases hlines : linesOf o c.directory with
    | error fault => exact .inr (hfails (Fails.congr (fails_orFault hlines c).bind (run_readLines o mode e c)))
    | ok all =>
      rcases assigned_or_fails_linesAndWork ⟨hsample, hmode, hsource, hengine, hlines⟩ with h | h
      · exact .inl ⟨e, h⟩
      · refine .inr (hfails (Fails.congr ?_ (run_readLines o mode e c)))
        exact Fails.bind_of_ok (run_orFault_of_ok hlines) h.bind

/-- **The program has work to do, or it ends before it has added a clause.** -/
theorem assigned_or_fails (o : Options) (c : Console) :
    (∃ e lines work, Assigned o c.directory e lines work) ∨ Fails (prepare o) c := by
  cases hsample : o.sample with
  | some s => exact .inl ⟨_, _, _, .sample hsample⟩
  | none =>
    rcases assigned_or_fails_fromFiles hsample c with h | h
    · exact .inl h
    · refine .inr ?_
      unfold prepare
      rw [hsample]
      exact h.bind

/-- The reading of files ends with a fault about clauses only where a saved knowledge base is loaded. -/
theorem fromFiles_error {halt : Halt} {c' : Console} (h : EStateM.run (fromFiles o) c = .error halt c')
    (hhalt : ¬halt.Foreign) : o.mode ≠ none ∧ ∃ fault, engineOf o c.directory = .error fault ∧ halt = .fault fault := by
  rcases refused_or_run_fromFiles o c with ⟨error, hrun⟩ | ⟨mode, hmode, -, hrun⟩
  · rw [hrun] at h
    exact absurd ((Orderly.exit 2 _).error h).2 hhalt
  · rw [hrun] at h
    exact ⟨by simp [hmode], of_run_orFault (Orderly.error_of_bind (orderly_readLines o mode) h hhalt)⟩

end Program

end Clausal
