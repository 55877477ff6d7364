import Clausal.CommandLine.Program
import Clausal.Proofs.Walk
import Mathlib.Tactic.Conv

/-!
# Parts of the program

What all parts of the program have in common, whatever they are for: they add to what is printed and take nothing back,
and the faults they end with are of the kind that has nothing to do with clauses (`Program.Orderly`).  There is one part
of which the second is not true, the loading of a saved knowledge base; where it stands among others, these can be left
aside (`Program.Orderly.error_of_bind`, `Program.Orderly.error_of_rest`).
-/

namespace Clausal

variable {α β : Type}

/-! ## Faults -/

theorem exists_of_bind_eq_ok {ε : Type} {x : Except ε α} {f : α → Except ε β} {b : β} (h : x >>= f = .ok b) :
    ∃ a, x = .ok a ∧ f a = .ok b := by
  cases x with
  | error error => cases h
  | ok a => exact ⟨a, rfl, h⟩

namespace Fault

/-- What is loaded has no place in an engine: a string with half a surrogate pair, or a counter that is a number and not
finite. -/
def Unkept : Fault → Prop
  | .unloadable .halfCharacter => True
  | .misfit (.uncounted _) => True
  | _ => False

/-- The fault is not about a text that is no clause, not about a request that the engine is in no state for, and not
about what has no place in an engine. -/
def Foreign : Fault → Prop
  | .unreadable _ => False
  | .unregistered => False
  | .noGoal => False
  | .unloadable .halfCharacter => False
  | .misfit (.uncounted _) => False
  | _ => True

theorem Unkept.not_foreign {fault : Fault} (h : fault.Unkept) : ¬fault.Foreign := by
  intro hforeign
  unfold Unkept at h
  split at h
  · exact hforeign
  · exact hforeign
  · exact h

/-- Every fault of a request is foreign to clauses. -/
def AllForeign (x : Except Fault α) : Prop := ∀ fault, x = .error fault → fault.Foreign

theorem AllForeign.ok (a : α) : AllForeign (.ok a) := by
  intro fault h
  cases h

theorem AllForeign.error {fault : Fault} (h : fault.Foreign) : AllForeign (.error fault : Except Fault α) := by
  intro fault' h'
  cases h'
  exact h

theorem AllForeign.bind {x : Except Fault α} {f : α → Except Fault β} (hx : AllForeign x)
    (hf : ∀ a, AllForeign (f a)) : AllForeign (x >>= f) := by
  cases x with
  | error fault => exact .error (hx fault rfl)
  | ok a => exact hf a

theorem AllForeign.map {x : Except Fault α} (f : α → β) (hx : AllForeign x) : AllForeign (f <$> x) := by
  cases x with
  | error fault => exact .error (hx fault rfl)
  | ok a => exact .ok (f a)

theorem AllForeign.mapM {f : α → Except Fault β} (hf : ∀ a, AllForeign (f a)) (as : List α) :
    AllForeign (as.mapM f) := by
  intro fault h
  obtain ⟨a, -, ha⟩ := exists_of_mapM_eq_error h
  exact hf a fault ha

end Fault

open Fault

/-! ### Files -/

namespace Directory

theorem foreign_target (d : Directory) (path : String) : AllForeign (d.target path) := by
  unfold target
  split
  · exact .error trivial
  split
  · exact .error trivial
  split
  · exact .error trivial
  split
  · exact .ok _
  · exact .error trivial

theorem foreign_read (d : Directory) (path : String) : AllForeign (d.read path) := by
  refine (d.foreign_target path).bind fun target => ?_
  rcases target with ⟨p, _ | ⟨folder, name⟩⟩
  · exact .error trivial
  dsimp only
  split
  · exact .error trivial
  split
  · exact .error trivial
  split
  · exact .error trivial
  split
  · exact .error trivial
  · exact .ok _

theorem foreign_write (d : Directory) (path text : String) : AllForeign (d.write path text) := by
  refine (d.foreign_target path).bind fun target => ?_
  rcases target with ⟨p, _ | ⟨folder, name⟩⟩
  · exact .error trivial
  dsimp only
  split
  · exact .error trivial
  split
  · exact .error trivial
  split
  · exact .error trivial
  · exact .ok _

end Directory

/-! ### Proofs -/

namespace Derivation

theorem foreign_get (d : Derivation) (i : Int) : AllForeign (d.get i) := by
  unfold get
  split
  · exact .ok _
  · refine .error ?_
    unfold strayPosition
    split <;> trivial

theorem foreign_visit (d : Derivation) (fuel : Nat) (seen queue : List Int) :
    AllForeign (d.visit fuel seen queue) := by
  induction fuel generalizing seen queue with
  | zero => exact .ok _
  | succ fuel ih =>
    cases queue with
    | nil => exact .ok _
    | cons i queue =>
      rw [visit]
      split
      · exact ih _ _
      · exact (d.foreign_get i).bind fun c => ih _ _

end Derivation

namespace Outcome

theorem foreign_proof (o : Outcome) : AllForeign o.proof := by
  unfold proof
  split
  · refine (o.derivation.foreign_visit _ _ _).bind fun names => ?_
    exact (AllForeign.mapM o.derivation.foreign_get _).bind fun steps => .ok _
  · exact .ok _

theorem foreign_graph (o : Outcome) : AllForeign o.graph := o.foreign_proof.bind fun _ => .ok _

theorem foreign_stepNumber (steps : List Clause) (index : Int) : AllForeign (stepNumber steps index) := by
  unfold stepNumber
  split
  · exact .ok _
  · exact .error trivial

theorem foreign_stepLine (steps : List Clause) (c : Clause) : AllForeign (stepLine steps c) := by
  refine (AllForeign.mapM (foreign_stepNumber steps) _).bind fun parents => ?_
  refine (foreign_stepNumber steps _).bind fun number => ?_
  unfold Clause.lineFrom
  split
  · exact .ok _
  · exact .error trivial
  · exact .ok _

theorem foreign_stepLines (steps cs : List Clause) : AllForeign (stepLines steps cs) := by
  induction cs with
  | nil => exact .ok _
  | cons c cs ih =>
    unfold stepLines
    split
    · exact (AllForeign.mapM (foreign_stepLine steps) _).bind fun lines => .ok _
    · exact (foreign_stepLine steps c).bind fun line => ih.bind fun lines => .ok _

theorem foreign_proofText (o : Outcome) : AllForeign o.proofText := by
  refine AllForeign.map _ (o.foreign_proof.bind fun steps => ?_)
  split
  · exact .ok _
  · exact (foreign_stepLines steps steps).bind fun lines => .ok _

end Outcome

/-! ## Typed lines -/

namespace Prompt

variable {m : Type → Type} [Monad m] {σ : Type} {obey : σ → String → m σ} {goOn : σ → m σ} {s : σ} {line : List Char}

theorem respond_of_leave (h : reply line = .leave) : respond obey goOn s (some line) = pure s := by
  rw [respond, h]

theorem respond_of_blank (h : reply line = .blank) : respond obey goOn s (some line) = goOn s := by
  rw [respond, h]

theorem respond_of_command {text : String} (h : reply line = .command text) :
    respond obey goOn s (some line) = obey s text >>= goOn := by
  rw [respond, h]

end Prompt

/-! ## Running a part -/

/-- One console comes after another: more has been printed. -/
def Console.After (c' c : Console) : Prop := ∃ more, c'.out = c.out ++ more

theorem Console.After.refl (c : Console) : c.After c := ⟨"", by simp⟩

theorem Console.After.trans {c c' c'' : Console} (h : c''.After c') (h' : c'.After c) : c''.After c := by
  obtain ⟨more, hmore⟩ := h
  obtain ⟨more', hmore'⟩ := h'
  exact ⟨more' ++ more, by rw [hmore, hmore', String.append_assoc]⟩

/-- A program ends with an exit code or a foreign fault. -/
def Halt.Foreign : Halt → Prop
  | .exit _ => True
  | .fault reason => reason.Foreign

namespace Program

variable {p : Program α} {f : α → Program β} {c c' : Console} {halt : Halt}

theorem run_bind_of_ok {a : α} (h : EStateM.run p c = .ok a c') :
    EStateM.run (p >>= f) c = EStateM.run (f a) c' := by
  show EStateM.bind p f c = _
  unfold EStateM.bind
  rw [show p c = .ok a c' from h]
  rfl

theorem run_bind_of_error (h : EStateM.run p c = .error halt c') :
    EStateM.run (p >>= f) c = .error halt c' := by
  show EStateM.bind p f c = _
  unfold EStateM.bind
  rw [show p c = .error halt c' from h]

/-- A part of the program adds to what is printed, and ends with foreign faults only. -/
structure Orderly (p : Program α) : Prop where
  ok : ∀ {c a c'}, EStateM.run p c = .ok a c' → c'.After c
  error : ∀ {c halt c'}, EStateM.run p c = .error halt c' → c'.After c ∧ halt.Foreign

namespace Orderly

theorem bind (hp : Orderly p) (hf : ∀ a, Orderly (f a)) : Orderly (p >>= f) where
  ok {c b c'} h := by
    cases hrun : EStateM.run p c with
    | ok a c₁ =>
      rw [run_bind_of_ok hrun] at h
      exact ((hf a).ok h).trans (hp.ok hrun)
    | error halt c₁ =>
      rw [run_bind_of_error hrun] at h
      cases h
  error {c halt c'} h := by
    cases hrun : EStateM.run p c with
    | ok a c₁ =>
      rw [run_bind_of_ok hrun] at h
      obtain ⟨hafter, hforeign⟩ := (hf a).error h
      exact ⟨hafter.trans (hp.ok hrun), hforeign⟩
    | error halt₁ c₁ =>
      rw [run_bind_of_error hrun] at h
      cases h
      exact hp.error hrun

/-- A fault that is not foreign comes from what stands before orderly parts. -/
theorem error_of_bind (hf : ∀ a, Orderly (f a)) (h : EStateM.run (p >>= f) c = .error halt c')
    (hhalt : ¬halt.Foreign) : EStateM.run p c = .error halt c' := by
  cases hrun : EStateM.run p c with
  | ok a c₁ =>
    rw [run_bind_of_ok hrun] at h
    exact absurd ((hf a).error h).2 hhalt
  | error halt₁ c₁ =>
    rw [run_bind_of_error hrun] at h
    cases h
    rfl

/-- A fault that is not foreign comes from what stands after an orderly part. -/
theorem error_of_rest (hp : Orderly p) (h : EStateM.run (p >>= f) c = .error halt c') (hhalt : ¬halt.Foreign) :
    ∃ a c₁, EStateM.run p c = .ok a c₁ ∧ EStateM.run (f a) c₁ = .error halt c' := by
  cases hrun : EStateM.run p c with
  | ok a c₁ =>
    rw [run_bind_of_ok hrun] at h
    exact ⟨a, c₁, rfl, h⟩
  | error halt₁ c₁ =>
    rw [run_bind_of_error hrun] at h
    cases h
    exact absurd (hp.error hrun).2 hhalt

theorem pure (a : α) : Orderly (Pure.pure a : Program α) where
  ok h := by
    cases h
    exact .refl _
  error h := by cases h

theorem throw (halt : Halt) (h : halt.Foreign) : Orderly (MonadExcept.throw halt : Program α) where
  ok h := by cases h
  error h' := by
    cases h'
    exact ⟨.refl _, h⟩

/-- What comes after the end does not matter. -/
theorem throw_bind (halt : Halt) (h : halt.Foreign) (f : α → Program β) :
    Orderly ((MonadExcept.throw halt : Program α) >>= f) where
  ok h := by cases h
  error h' := by
    cases h'
    exact ⟨.refl _, h⟩

theorem say (text : String) : Orderly (Program.say text) where
  ok h := by
    cases h
    exact ⟨text, rfl⟩
  error h := by cases h

theorem exit (code : Nat) (message : String) : Orderly (Program.exit code message : Program α) where
  ok h := by cases h
  error h := by
    cases h
    exact ⟨⟨"", by simp⟩, trivial⟩

theorem orFault {x : Except Fault α} (h : AllForeign x) : Orderly (Program.orFault x) := by
  cases x with
  | ok a => exact pure a
  | error fault => exact throw (.fault fault) (h fault rfl)

theorem orError (x : Except ParseError α) : Orderly (Program.orError x) := by
  cases x with
  | ok a => exact pure a
  | error error => exact exit 1 _

theorem get : Orderly (MonadState.get : Program Console) where
  ok h := by
    cases h
    exact .refl _
  error h := by cases h

theorem readFile (path : String) : Orderly (Program.readFile path) :=
  get.bind fun c => orFault (c.directory.foreign_read path)

theorem writeFile (path text : String) : Orderly (Program.writeFile path text) := by
  refine get.bind fun c => (orFault (c.directory.foreign_write path text)).bind fun directory => ⟨?_, ?_⟩
  · intro c a c' h
    cases h
    exact ⟨"", by simp⟩
  · intro c halt c' h
    cases h

theorem foldlM {g : β → α → Program β} (h : ∀ b a, Orderly (g b a)) (as : List α) (b : β) :
    Orderly (as.foldlM g b) := by
  induction as generalizing b with
  | nil => exact pure b
  | cons a as ih =>
    rw [List.foldlM_cons]
    exact (h b a).bind ih

end Orderly

/-! ## The parts that are orderly -/

theorem orderly_options (arguments : List String) : Orderly (options arguments) := by
  unfold options
  split
  · exact .pure _
  · exact (Orderly.say _).bind fun _ => .throw (.exit 0) trivial
  · exact .exit _ _

theorem orderly_linesAndWork (o : Options) (mode : Mode) (lines : List String) :
    Orderly (linesAndWork o mode lines) := by
  unfold linesAndWork cookingWork
  split
  · split
    · exact .pure _
    · exact .exit _ _
  · refine Orderly.bind ?_ fun work => .pure _
    split
    · exact .pure _
    split
    · exact (Orderly.readFile _).bind fun text => .pure _
    · exact .exit _ _

theorem orderly_fromSample (s : Sample) : Orderly (fromSample s) := (Orderly.say _).bind fun _ => .pure _

theorem orderly_sayState (e : Engine) : Orderly (sayState e) := by
  unfold sayState
  split
  · exact (Orderly.say _).bind fun _ => .throw_bind (.fault .longNumber) trivial _
  · exact .say _

theorem orderly_obey (o : Options) (a : Assistant) (line : String) : Orderly (obey o a line) := by
  unfold obey
  dsimp only
  split
  · exact (Orderly.say _).bind fun _ => .throw_bind (.fault .blankLimit) trivial _
  · exact (Orderly.say _).bind fun _ => .pure _

/-- A typed line is taken, and the dialogue goes on with the others. -/
theorem dialogue_cons (o : Options) (ending : Prompt.Ending) (a : Assistant) (line : List Char)
    (lines : List (List Char)) : dialogue o ending a (line :: lines) = say Prompt.mark >>= fun _ =>
      Prompt.respond (obey o) (fun a => dialogue o ending a lines) a (some line) := by
  unfold dialogue
  rw [List.length_cons]
  conv_lhs =>
    dsimp only
    rw [Prompt.converse]
  have hnext : (nextTyped ending).run (line :: lines) = say Prompt.mark >>= fun _ => pure (some line, lines) := rfl
  rw [if_pos rfl, StateT.run'_eq, StateT.run_bind, hnext]
  cases hreply : Prompt.reply line with
  | leave => simp [Prompt.respond_of_leave hreply]
  | blank => simp [Prompt.respond_of_blank hreply]
  | command text => simp [Prompt.respond_of_command hreply]

theorem orderly_dialogue (o : Options) (ending : Prompt.Ending) (a : Assistant) (lines : List (List Char)) :
    Orderly (dialogue o ending a lines) := by
  induction lines generalizing a with
  | nil => exact (Orderly.say _).bind fun _ => .pure _
  | cons line lines ih =>
    rw [dialogue_cons]
    refine (Orderly.say _).bind fun _ => ?_
    cases hreply : Prompt.reply line with
    | leave =>
      rw [Prompt.respond_of_leave hreply]
      exact .pure _
    | blank =>
      rw [Prompt.respond_of_blank hreply]
      exact ih a
    | command text =>
      rw [Prompt.respond_of_command hreply]
      exact (orderly_obey o a _).bind ih

theorem orderly_perform (o : Options) (typed : String) (ending : Prompt.Ending) (e : Engine) (work : Work) :
    Orderly (perform o typed ending e work) := by
  cases work with
  | prove text =>
    refine (Orderly.orError _).bind fun goal => ?_
    dsimp only
    split
    · exact .throw_bind (.fault .blankLimit) trivial _
    have hrest : ∀ (e : Engine) (run : Run), Orderly (do
        say (← Program.orFault (e.outcome run).proofText)
        return (e, [e.outcome run])) :=
      fun e run => (Orderly.orFault (e.outcome run).foreign_proofText).bind fun _ =>
        (Orderly.say _).bind fun _ => .pure _
    split
    · exact (Orderly.say _).bind fun _ => hrest _ _
    · exact hrest _ _
  | carryOut commands => exact (Orderly.foldlM (orderly_obey o) commands _).bind fun a => .pure _
  | converse =>
    exact (Orderly.say _).bind fun _ => (orderly_dialogue o ending _ _).bind fun a => .pure _

theorem orderly_exportGraph (outcomes : List Outcome) (path : String) : Orderly (exportGraph outcomes path) := by
  unfold exportGraph
  split
  · exact .say _
  · exact (Orderly.orFault (Outcome.foreign_graph _)).bind fun text =>
      (Orderly.writeFile path text).bind fun _ => .say _

theorem orderly_saveTo (path : String) (e : Engine) : Orderly (saveTo path e) := by
  unfold saveTo
  dsimp only
  split
  · exact (Orderly.writeFile path _).bind fun _ => .throw_bind (.fault .longNumber) trivial _
  · exact (Orderly.writeFile path _).bind fun _ => .say _

theorem orderly_conclude (o : Options) (e : Engine) (outcomes : List Outcome) : Orderly (conclude o e outcomes) := by
  unfold conclude
  extract_lets save graph
  have hsave : ∀ u, Orderly (save u) := by
    intro u
    unfold save
    split
    · exact orderly_saveTo _ e
    · exact .pure ()
  have hgraph : ∀ u, Orderly (graph u) := by
    intro u
    unfold graph
    split
    · exact (orderly_exportGraph outcomes _).bind hsave
    · exact hsave ()
  split
  · exact (Orderly.say _).bind hgraph
  · exact hgraph ()

end Program

end Clausal
