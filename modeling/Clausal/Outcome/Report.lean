import Clausal.Outcome.Proof
import Clausal.Text.Basic

/-!
# Reports

The trace and the history of an outcome as printed text, and its proof as a graph in the DOT language.
-/

namespace Clausal

namespace RoundEntry

/-- The lines of a round in a history. -/
def lines (entry : RoundEntry) : List String :=
  let produced :=
    if entry.produced.isEmpty then "(nothing new)" else ", ".intercalate entry.produced
  let first := "  Round " ++ toString entry.round ++ ": sos=" ++ toString entry.support ++
    " clauses=" ++ toString entry.working ++ " -> " ++ produced
  if entry.removed.isEmpty then [first]
  else [first, "    back-subsumed: " ++ ", ".intercalate entry.removed]

end RoundEntry

namespace Outcome

def proofText (o : Outcome) : Except Fault String := Text.unlines <$> o.trace

def historyText (o : Outcome) : String :=
  let heading := "Resolution history (" ++ toString o.rounds ++ " rounds):"
  Text.unlines (["", Text.heavyRule, heading, Text.heavyRule] ++ o.history.flatMap RoundEntry.lines)

/-! ## The graph -/

/-- The colour of a clause: the empty one, a derived one, an asserted one. -/
def colour (c : Clause) : String :=
  if c.isEmpty then "salmon" else if c.hasParents then "lightgray" else "lightblue"

/-- A text between double quotes, in which a double quote is written with a backslash. -/
def label (text : String) : String :=
  String.ofList (text.toList.flatMap fun c => if c = '"' then ['\\', '"'] else [c])

def node (index : Int) : String := "c" ++ toString index

/-- The line of a clause, and one for each of its parents. -/
def nodeLines (c : Clause) : List String :=
  ("  " ++ node c.index ++ " [label=\"" ++ label c.name ++ "\", fillcolor=" ++ colour c ++
      ", style=filled];") ::
    c.parents.map fun parent => "  " ++ node parent ++ " -> " ++ node c.index ++ ";"

/-- The proof as a graph whose edges go from parents to what was derived from them. -/
def graph (o : Outcome) : Except Fault String := do
  let steps ← o.proof
  return Text.unlines (["digraph proof \x7b", "  rankdir=BT;", "  node [shape=box, style=rounded];"] ++
    steps.flatMap nodeLines ++ ["\x7d"])

/-- What is printed when a graph has been written to a file. -/
def graphNotice (path : String) : String := "Graph exported to " ++ path ++ "\n"

end Outcome

end Clausal
