import Clausal.Text.Basic

/-!
# Paths

A path is a text in which slashes part the steps of a way: to a directory below by its name, or to the
directory above. A location is what a way comes to, without detours.
-/

namespace Clausal

/-- A location in a file system, given by the names on the straight way to it, from the root or from the
directory at hand. From there, steps up come first. -/
structure Location where
  absolute : Bool
  names : List String
deriving DecidableEq

namespace Location

/-- The step to the directory above. -/
def stepUp : String := ".."

/-- The directory at hand. -/
def here : Location := ⟨false, []⟩

def root : Location := ⟨true, []⟩

def child (l : Location) (name : String) : Location := { l with names := l.names ++ [name] }

def above (l : Location) : Location :=
  if !l.absolute && l.names.all (· = stepUp) then l.child stepUp
  else { l with names := l.names.dropLast }

/-- Is the location the directory at hand or below it? -/
def isBelow (l : Location) : Bool := !l.absolute && l.names.head? ≠ some stepUp

/-- The path of the straight way. -/
def text (l : Location) : String := (if l.absolute then "/" else "") ++ "/".intercalate l.names

end Location

/-- A path taken apart: its start, the steps from there, and whether a slash ends it. -/
structure Path where
  start : Location
  steps : List String
  slashed : Bool
deriving DecidableEq

namespace Path

/-- A path cut at its slashes. -/
def cut : List Char → List (List Char)
  | [] => [[]]
  | c :: rest =>
    if c = '/' then [] :: cut rest
    else match cut rest with
      | [] => [[c]]
      | part :: parts => (c :: part) :: parts

def ofText (text : String) : Path where
  start := if text.toList.head? = some '/' then .root else .here
  steps := ((cut text.toList).map String.ofList).filter (· ≠ "")
  slashed := text.toList.getLast? = some '/'

/-- The location one step further. -/
def advance (l : Location) (step : String) : Location :=
  if step = "." then l else if step = Location.stepUp then l.above else l.child step

/-- The locations on the way, the start left out. -/
def way (l : Location) : List String → List Location
  | [] => []
  | step :: rest => advance l step :: way (advance l step) rest

/-- The directories on the way to a path's last step. -/
def folders (p : Path) : List Location := way p.start p.steps.dropLast

def location (p : Path) : Location := p.steps.foldl advance p.start

end Path

end Clausal
