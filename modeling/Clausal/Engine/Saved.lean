import Clausal.Engine.Basic
import Clausal.Json.Parser

/-!
# Saved knowledge bases

A knowledge base is saved as the names of its clauses and the next clause number, in a JSON text. Loading
reads the names again, so the clauses are numbered from 1.
-/

namespace Clausal

/-- What is saved of an engine. Both parts may be missing in a text from elsewhere, and a value may be in
the wrong place: it is met when the clauses have been added, which are those in front of it. -/
structure Saved where
  clauses : Option (List String)
  counter : Option Int := none
  misfit : Option Misfit := none
deriving DecidableEq

namespace Saved

/-- The texts in a list, up to the first element that is none. -/
def textsOf : List Json → List String × Option Misfit
  | [] => ([], none)
  | element :: rest =>
    match element.text? with
    | some text =>
      let (texts, misfit) := textsOf rest
      (text :: texts, misfit)
    | none => ([], some (.clause element.kind))

/-- The texts that are the elements of a value. Those of a string are its characters, and those of an object are the
names of its fields. -/
def clausesOf : Json → List String × Option Misfit
  | .arr elements => textsOf elements
  | .str text => (text.toList.map String.singleton, none)
  | .obj fields => ((fields.map (·.1)).eraseDups, none)
  | value => ([], some (.clauses value.kind))

/-- The integer that a counter comes to, if there is one. Clauses are numbered with integers, so a fraction
is left out. What is less than every number is passed over. -/
def counterOf : Option Json → Option Int × Option Misfit
  | none => (none, none)
  | some (.int value) => (some value, none)
  | some (.bool value) => (some (if value then 1 else 0), none)
  | some (.decimal mantissa scale) => (some (Json.whole mantissa scale), none)
  | some (.other "-Infinity") => (none, none)
  | some (.other number) => (none, some (.uncounted number))
  | some value => (none, some (.counter value.kind))

/-- The saved form that a JSON value describes. -/
def ofJson (value : Json) : Saved :=
  match value with
  | .obj _ =>
    match value.field? "clauses" with
    | none => { clauses := none }
    | some listed =>
      let (texts, misfit) := clausesOf listed
      let (counter, misfit') := counterOf (value.field? "counter")
      { clauses := some texts, counter, misfit := misfit <|> misfit' }
  | _ => { clauses := some [], misfit := some (.base value.kind) }

/-- The escape of a code unit. -/
def escapedUnit (n : Nat) : List Char := '\\' :: 'u' :: Text.hexDigits 4 n

/-- A character inside a string. Only printable ASCII is written as it is; a character beyond 16 bits
is written as a surrogate pair. -/
def escapedChar (c : Char) : List Char :=
  if c = '"' ∨ c = '\\' then ['\\', c]
  else if c = '\n' then ['\\', 'n']
  else if c = '\r' then ['\\', 'r']
  else if c = '\t' then ['\\', 't']
  else if c = '\x0c' then ['\\', 'f']
  else if c = '\x08' then ['\\', 'b']
  else if 0x20 ≤ c.toNat ∧ c.toNat < 0x7F then [c]
  else if c.toNat < 0x10000 then escapedUnit c.toNat
  else
    let offset := c.toNat - 0x10000
    escapedUnit (0xD800 + offset / 0x400) ++ escapedUnit (0xDC00 + offset % 0x400)

def stringText (text : String) : String :=
  String.ofList ('"' :: text.toList.flatMap escapedChar ++ ['"'])

/-- The list of the clauses, one on a line. -/
def clausesText (clauses : List String) : String :=
  if clauses.isEmpty then "[]"
  else "[\n" ++ ",\n".intercalate (clauses.map fun text => "    " ++ stringText text) ++ "\n  ]"

/-- The text of a saved knowledge base up to its counter. -/
def opening (clauses : List String) : String :=
  "\x7b\n  \"clauses\": " ++ clausesText clauses ++ ",\n  \"counter\": "

def text (clauses : List String) (counter : Int) : String :=
  opening clauses ++ toString counter ++ "\n\x7d"

/-- The engine that was saved. The counter does not go back. -/
def restore (s : Saved) : Except Fault Engine :=
  match s.clauses with
  | none => .error .noClauses
  | some texts =>
    match Engine.ofTexts texts with
    | .error error => .error (.unreadable error)
    | .ok e =>
      match s.misfit with
      | some value => .error (.misfit value)
      | none => .ok { e with counter := max (s.counter.getD e.counter) e.counter }

end Saved

namespace Engine

def names (e : Engine) : List String := e.knowledge.toList.map Clause.name

def saved (e : Engine) : Saved := { clauses := some e.names, counter := some e.counter }

def save (e : Engine) : String := Saved.text e.names e.counter

def load (text : String) : Except Fault Engine :=
  match Json.parse text with
  | .error failure => .error (.unloadable failure)
  | .ok value => (Saved.ofJson value).restore

end Engine

end Clausal
