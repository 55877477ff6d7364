import Clausal.Engine.Run
import Clausal.Outcome.Report

/-!
# Reports on an engine

What is printed of the state of an engine and of the rounds of a run.
-/

namespace Clausal

namespace Engine

/-- The knowledge base as printed text, up to a clause. -/
def stateTextBefore (e : Engine) (stop : Clause → Bool) : String :=
  Text.unlines (["", Text.heavyRule, "Knowledge base (" ++ toString e.knowledge.size ++ "):"] ++
    (e.knowledge.toList.takeWhile fun c => !stop c).map fun c => "  " ++ c.line)

/-- The knowledge base and the pending goal, as printed text. -/
def stateText (e : Engine) : String :=
  let goal := match e.goal with
    | none => []
    | some goal =>
      ["Goal: " ++ goal.name, "Set of support (" ++ toString e.support.size ++ "):"] ++
        e.support.toList.map fun c => "  " ++ c.line
  Text.unlines (["", Text.heavyRule, "Knowledge base (" ++ toString e.knowledge.size ++ "):"] ++
    (e.knowledge.toList.map fun c => "  " ++ c.line) ++ goal ++ [Text.heavyRule])

/-- What a search prints: all events, round by round. -/
def told (laps : List Lap) : String :=
  String.join (laps.flatMap fun lap => lap.report.events.toList.map Event.text)

def runText (e : Engine) (r : Run) : String :=
  (match r.verdict, r.laps with
    | .proven _, [] => Event.conflict.text
    | _, _ => told r.laps) ++
  "  " ++ (e.outcome r).conclusion ++ "\n"

end Engine

end Clausal
