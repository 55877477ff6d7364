import Clausal.Text.Basic
import Clausal.Text.Lowercase

/-!
# The prompt

Commands can be typed at a prompt. Blank lines are asked for again, and a word for leaving ends the
dialogue.
-/

namespace Clausal

namespace Prompt

/-- What is printed before the first prompt. -/
def greeting : String :=
  "Enter commands as <clause>+, <clause>- or <clause>?  ('q' to quit)\n"

def mark : String := "> "

/-- What a typed line means. -/
inductive Reply where
  | blank
  | leave
  | command (text : String)
deriving DecidableEq

def leaving : List String := ["q", "quit", "exit"]

/-- Reads a typed line, in any case. -/
def reply (line : List Char) : Reply :=
  let text := String.ofList (Text.lower (Text.trim line))
  if leaving.contains text then .leave else if text.isEmpty then .blank else .command text

/-- How the typing stops if no one leaves: the input ends, or it is interrupted. -/
inductive Ending where
  | closed
  | interrupted
deriving DecidableEq

section Converse

variable {m : Type → Type} [Monad m] {σ : Type}

/-- What follows on a line, or on the end of the lines: the command in it is obeyed, and the dialogue goes on. -/
def respond (obey : σ → String → m σ) (goOn : σ → m σ) (s : σ) : Option (List Char) → m σ
  | none => pure s
  | some line =>
    match reply line with
    | .leave => pure s
    | .blank => goOn s
    | .command text => obey s text >>= goOn

/-- The dialogue: as long as commands are wanted it asks for a line. No more than `fuel` lines are asked for. -/
def converse (wanting : σ → Bool) (ask : m (Option (List Char))) (obey : σ → String → m σ) : Nat → σ → m σ
  | 0, s => pure s
  | fuel + 1, s => if wanting s then ask >>= respond obey (converse wanting ask obey fuel) s else pure s

end Converse

/-! ## Typed lines -/

/-- A dialogue at the prompt: what is printed, the commands, and whether it was interrupted. -/
structure Dialogue where
  printed : String
  commands : List String
  interrupted : Bool

/-- The lines that are still to be typed, what is printed, and whether the typing was interrupted. -/
structure Typing where
  lines : List (List Char)
  printed : String := ""
  interrupted : Bool := false

/-- Asks for the next of the typed lines. -/
def nextTyped (mark : String) (ending : Ending) : StateM Typing (Option (List Char)) := fun t =>
  match t.lines with
  | [] => (none, { t with printed := t.printed ++ mark, interrupted := ending = .interrupted })
  | line :: lines => (some line, { t with lines, printed := t.printed ++ mark })

/-- The dialogue over typed lines. With `some n` no more than `n` commands are asked for. -/
def dialogue (mark : String) (ending : Ending) (wanted : Option Nat) (lines : List (List Char)) : Dialogue :=
  let wanting (commands : List String) : Bool := wanted.all (commands.length < ·)
  let note (commands : List String) (text : String) : StateM Typing (List String) := pure (commands ++ [text])
  let (commands, t) := (converse wanting (nextTyped mark ending) note (lines.length + 1) []).run { lines }
  ⟨t.printed, commands, t.interrupted⟩

/-- The whole dialogue. If no command is wanted, there is none. -/
def ask (mark : String) (ending : Ending) (wanted : Option Nat) (typed : String) : Dialogue :=
  let d := dialogue mark ending wanted (Text.lines typed)
  if wanted = some 0 then d else { d with printed := greeting ++ d.printed }

end Prompt

end Clausal
