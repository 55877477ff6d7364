import Clausal.CommandLine.Options

/-!
# Reading the command line

First every argument is classified: a switch, possibly with a value attached, or anything else. Then the
switches are carried out from left to right, and the first unbroken run of other arguments fills mode,
clause file and command file.
-/

namespace Clausal

/-- An argument by its form. -/
inductive Argument where
  | plain (text : String)
  /-- The argument after which none is a switch. -/
  | divider
  | switch (s : Switch) (attached : Option String)
  /-- A switch that there is not. -/
  | stranger (text : String)

namespace Argument

/-- The argument after which none is a switch. -/
def dividerText : String := "--"

/-- The parts of a text before and after its first equals sign. -/
def splitValue (text : List Char) : List Char × Option (List Char) :=
  (text.takeWhile (· ≠ '='), match text.dropWhile (· ≠ '=') with
    | [] => none
    | _ :: value => some value)

/-- What is attached to the short help switch by more letters: each `h` is the switch again, and what is
left after them is a value. -/
def cluster (letters : List Char) : Option (List Char) :=
  match letters.dropWhile (· = 'h') with
  | [] => none
  | value => some value

/-- What the text after the short help switch attaches to it. Letters after an equals sign are a cluster
too. -/
def afterHelp : List Char → Option (List Char)
  | ['='] => some []
  | '=' :: letters => cluster letters
  | letters => cluster letters

/-- The switches whose name begins with a text. -/
def abbreviated (text : List Char) : List (String × Switch) :=
  Switch.all.filter fun named => text.isPrefixOf named.1.toList

/-- An argument that begins with a dash and is no whole name of a switch. -/
def classifyDashed (text : String) : Except UsageError Argument :=
  let other :=
    if Text.looksNegative text.toList || text.toList.contains ' ' then plain text else stranger text
  match text.toList with
  | '-' :: 'h' :: rest => .ok (.switch (.flag .help) ((afterHelp rest).map String.ofList))
  | '-' :: '-' :: _ =>
    let (name, value) := splitValue text.toList
    let value := value.map String.ofList
    match Switch.named? (String.ofList name), abbreviated name with
    | some s, _ => .ok (.switch s value)
    | none, [] => .ok other
    | none, [(_, s)] => .ok (.switch s value)
    | none, several => .error (.ambiguous text (several.map (·.1)))
  | _ => .ok other

/-- The form of an argument that is not the divider. -/
def classify (text : String) : Except UsageError Argument :=
  match text.toList with
  | '-' :: _ :: _ =>
    match Switch.named? text with
    | some s => .ok (.switch s none)
    | none => classifyDashed text
  | _ => .ok (.plain text)

def classifyAll : List String → Except UsageError (List Argument)
  | [] => .ok []
  | text :: rest =>
    if text = dividerText then .ok (.divider :: rest.map plain)
    else do
      let argument ← classify text
      let arguments ← classifyAll rest
      return argument :: arguments

/-- The divider arguments at the beginning, as texts, and the rest. -/
def dividers : List Argument → List String × List Argument
  | .divider :: rest =>
    let (texts, rest) := dividers rest
    (dividerText :: texts, rest)
  | arguments => ([], arguments)

/-- The arguments for one slot: at most one plain argument, and the dividers around it. -/
def slotTexts (arguments : List Argument) : List String × List Argument :=
  let (before, rest) := dividers arguments
  match rest with
  | .plain text :: rest =>
    let (after, rest) := dividers rest
    (before ++ text :: after, rest)
  | _ => (before, rest)

/-- The value of one slot: the first divider does not count. -/
def slot (arguments : List Argument) : Option String × List Argument :=
  let (texts, rest) := slotTexts arguments
  ((texts.erase dividerText).head?, rest)

end Argument

/-- Why no options come out of a command line. -/
inductive Refusal where
  /-- Help is asked for. -/
  | help
  | usage (error : UsageError)

/-- The options read so far, and the arguments that mean nothing. -/
structure Reading where
  options : Options := {}
  extras : List String := []

namespace Reading

def extra (r : Reading) (text : String) : Reading := { r with extras := r.extras ++ [text] }

def raise (r : Reading) : Flag → Except Refusal Reading
  | .help => .error .help
  | .interactive => .ok { r with options := { r.options with interactive := true } }
  | .verbose => .ok { r with options := { r.options with verbose := true } }
  | .history => .ok { r with options := { r.options with history := true } }

def assign (r : Reading) (setting : Setting) (value : String) : Except Refusal Reading :=
  match setting with
  | .domain =>
    match Sample.find value with
    | .ok sample => .ok { r with options := { r.options with sample := some sample } }
    | .error _ =>
      .error (.usage (.invalidChoice (Switch.setting .domain).title value (Sample.all.map (·.name))))
  | .maxRounds =>
    match Text.integer? value.toList with
    | some n => .ok { r with options := { r.options with maxRounds := .rounds n } }
    | none => .error (.usage (.invalidInteger (.setting .maxRounds) value))
  | .dot => .ok { r with options := { r.options with dot := some value } }
  | .save => .ok { r with options := { r.options with save := some value } }
  | .load => .ok { r with options := { r.options with load := some value } }

/-- Takes a setting back. A limit stays, without its number. -/
def clear (r : Reading) : Setting → Reading
  | .domain => { r with options := { r.options with sample := none } }
  | .maxRounds => { r with options := { r.options with maxRounds := .blank } }
  | .dot => { r with options := { r.options with dot := none } }
  | .save => { r with options := { r.options with save := none } }
  | .load => { r with options := { r.options with load := none } }

/-- Carries out a switch with a value attached. The divider is no value. -/
def attach (r : Reading) (s : Switch) (value : String) : Except Refusal Reading :=
  match s with
  | .flag _ => .error (.usage (.valueIgnored s value))
  | .setting setting =>
    if value = Argument.dividerText then .ok (r.clear setting) else r.assign setting value

/-- Carries out the switches from the left. Other arguments mean nothing if `filled`; else the first of
them ends the reading. -/
def switches (filled : Bool) : List Argument → Reading → Except Refusal (Reading × List Argument)
  | [], r => .ok (r, [])
  | .stranger text :: rest, r => switches filled rest (r.extra text)
  | .switch s (some value) :: rest, r => do switches filled rest (← r.attach s value)
  | .switch (.flag f) none :: rest, r => do switches filled rest (← r.raise f)
  | .switch (.setting setting) none :: .plain value :: rest, r => do
    switches filled rest (← r.assign setting value)
  | .switch (.setting setting) none :: _, _ => .error (.usage (.valueExpected (.setting setting)))
  | .plain text :: rest, r =>
    if filled then switches filled rest (r.extra text) else .ok (r, .plain text :: rest)
  | .divider :: rest, r =>
    if filled then switches filled rest (r.extra Argument.dividerText)
    else .ok (r, .divider :: rest)

/-- Fills mode, clause file and command file. -/
def fill (r : Reading) (arguments : List Argument) : Except Refusal (Reading × List Argument) := do
  let (mode, rest) := Argument.slot arguments
  let mode ← match mode with
    | none => pure none
    | some name =>
      match Mode.all.find? (·.1 = name) with
      | some (_, mode) => pure (some mode)
      | none => throw (.usage (.invalidChoice "mode" name (Mode.all.map (·.1))))
  let (clauses, rest) := Argument.slot rest
  let (commands, rest) := Argument.slot rest
  return ({ r with options := { r.options with mode, clauses, commands } }, rest)

end Reading

namespace Options

def read (arguments : List String) : Except Refusal Options := do
  let arguments ← (Argument.classifyAll arguments).mapError Refusal.usage
  let (reading, rest) ← Reading.switches false arguments {}
  let (reading, rest) ← reading.fill rest
  let (reading, _) ← Reading.switches true rest reading
  if reading.extras.isEmpty then return reading.options
  else throw (.usage (.unrecognized reading.extras))

end Options

end Clausal
