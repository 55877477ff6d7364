import Clausal.Session.Basic

/-!
# Taking steps

What each step of a session does and answers. The steps of a hook are taken in the middle of a run.
-/

namespace Clausal

namespace Session

def add (s : Session) (text : String) : Except Fault Value × Session :=
  match s.engine.add text with
  | (.ok (), e) => (.ok .nothing, s.update e)
  | (.error error, e) => (.error (.unreadable error), s.update e)

/-- Changes the present engine by a reading that may fail. -/
def change (s : Session) (result : Except ParseError Engine) : Except Fault Value × Session :=
  match result with
  | .ok e => (.ok .nothing, s.update e)
  | .error error => (.error (.unreadable error), s)

/-- Puts another engine in place of the present one, if there is one. -/
def exchange (s : Session) (result : Except Fault Engine) : Except Fault Value × Session :=
  match result with
  | .ok e => (.ok .nothing, s.replace e)
  | .error fault => (.error fault, s)

def resolve (s : Session) (a : Operand) (b : Option Operand) : Except Fault Value × Session :=
  match s.engine.resolve a b with
  | .ok (resolvents, e) => (.ok (.clauses resolvents), s.update e)
  | .error fault => (.error fault, s)

def parentsOf (s : Session) (i : Int) : Except Fault Value := do
  let c ← s.engine.derivation.get i
  return .clauses (← s.engine.derivation.parentsOf c)

end Session

mutual

def Step.value : Step → Session → Except Fault Value × Session
  | .add text, s => s.add text
  | .remove text, s => s.change (s.engine.remove text)
  | .goal text, s => s.change (s.engine.setGoal text)
  | .run options hooks, s =>
    let (value, s) := s.run options (Hook.actions hooks)
    (.ok value, s)
  | .resolve a b, s => s.resolve a b
  | .parentsOf i, s => (s.parentsOf i, s)
  | .derivation, s => (.ok (.clauses s.engine.derivation.toList), s)
  | .saved, s => (.ok (.saved s.engine.names s.engine.counter), s)
  | .restore saved, s => s.exchange saved.restore
  | .save, s => (.ok (.text s.engine.save), s)
  | .reload, s => s.exchange (Engine.load s.engine.save)
  | .load text, s => s.exchange (Engine.load text)
  | .state, s => (.ok (.text (s.engine.stateText)), s)
  | .describe n, s => (.outcome <$> s.outcome n, s)
  | .proof n, s => (.text <$> (s.outcome n >>= Outcome.proofText), s)
  | .history n, s => ((fun o => .text o.historyText) <$> s.outcome n, s)
  | .graph n, s => (.graph <$> (s.outcome n >>= Outcome.graph), s)

/-- Takes steps one after the other and answers each. -/
def Step.performAll : List Step → Session → List Answer × Session
  | [], s => ([], s)
  | step :: rest, s =>
    let (value, s) := step.value s
    let answer := Answer.mk value s.engine.view
    let (answers, s) := Step.performAll rest s
    (answer :: answers, s)

def Hook.actions : List Hook → List (Int × Session.Action)
  | [] => []
  | .mk round steps :: rest => (round, Step.performAll steps) :: Hook.actions rest

end

def Session.answers (steps : List Step) : List Answer := (Step.performAll steps {}).1

end Clausal
