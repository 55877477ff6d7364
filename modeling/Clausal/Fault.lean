import Clausal.Clause.Parser
import Clausal.Json.Basic

/-!
# Faults

Everything that can go wrong when the prover is asked for something, with the words in which it is
reported.
-/

namespace Clausal

/-- Why there is no file at a path to be read or written. -/
inductive FileError where
  /-- Nothing is there, or nothing on the way there. -/
  | missing
  /-- There is a directory. -/
  | directory
  /-- On the way there is a file in place of a directory. -/
  | notDirectory
  /-- A name on the way is too long. -/
  | longName
deriving DecidableEq

def FileError.message : FileError → String
  | missing => "[Errno 2] No such file or directory"
  | directory => "[Errno 21] Is a directory"
  | notDirectory => "[Errno 20] Not a directory"
  | longName => "[Errno 36] File name too long"

def Json.Failure.message : Json.Failure → String
  | malformed => "malformed text"
  | longNumeral digits =>
    "Exceeds the limit (4300 digits) for integer string conversion: value has " ++ toString digits ++
      " digits; use sys.set_int_max_str_digits() to increase the limit"
  | tooDeep array =>
    "maximum recursion depth exceeded while decoding a JSON " ++
      (if array then "array" else "object") ++ " from a unicode string"
  | halfCharacter => "half a surrogate pair"

/-- A value in a saved knowledge base that is not what is asked for in its place, with the kind that it is of. -/
inductive Misfit where
  /-- The whole is no object. -/
  | base (kind : String)
  /-- The clauses are nothing that has elements. -/
  | clauses (kind : String)
  /-- A clause is no text. -/
  | clause (kind : String)
  /-- The counter is no number. -/
  | counter (kind : String)
  /-- The counter is a number that is not finite, with which no clause can be numbered here. -/
  | uncounted (number : String)
deriving DecidableEq

def Misfit.message : Misfit → String
  | base "list" => "list indices must be integers or slices, not str"
  | base "str" => "string indices must be integers, not 'str'"
  | base kind => "'" ++ kind ++ "' object is not subscriptable"
  | clauses kind => "'" ++ kind ++ "' object is not iterable"
  | clause kind => "'" ++ kind ++ "' object has no attribute 'strip'"
  | counter kind => "'>' not supported between instances of 'int' and '" ++ kind ++ "'"
  | uncounted number => "counter " ++ number

/-- Why a request has no answer. -/
inductive Fault where
  /-- A text is no clause. -/
  | unreadable (error : ParseError)
  /-- A clause in no derivation was to become a parent. -/
  | unregistered
  /-- A run was asked for, and there is no goal. -/
  | noGoal
  /-- A position outside a list. -/
  | outOfRange
  /-- A position that no list can have. -/
  | unindexable
  /-- Two parents were to be shown, and there is one. -/
  | loneParent
  /-- A parent that is no step of the proof. -/
  | unnumbered (index : Int)
  /-- A saved knowledge base without clauses. -/
  | noClauses
  /-- A saved knowledge base with a value in the wrong place. -/
  | misfit (value : Misfit)
  /-- There is no sample of this name. -/
  | unknownSample (name : String)
  /-- A saved knowledge base that is not read. -/
  | unloadable (failure : Json.Failure)
  /-- There is no file at this path. -/
  | file (error : FileError) (path : String)
  /-- A path with a null character. -/
  | nullInPath
  /-- A number has too many digits to be written. -/
  | longNumber
  /-- A run was given up after this round. -/
  | aborted (round : Int)
  /-- A run was to be held against a limit without a number. -/
  | blankLimit
deriving DecidableEq

def Fault.message : Fault → String
  | unreadable error => error.message
  | unregistered => "parent clause is not registered in a derivation"
  | noGoal => "run() called with no goal set"
  | outOfRange => "list index out of range"
  | unindexable => "cannot fit 'int' into an index-sized integer"
  | loneParent => "tuple index out of range"
  | unnumbered index => toString index
  | noClauses => Text.quoted "clauses"
  | misfit value => value.message
  | unknownSample name => Text.quoted name
  | unloadable failure => failure.message
  | file error path => error.message ++ ": " ++ Text.quoted path
  | nullInPath => "embedded null byte"
  | longNumber =>
    "Exceeds the limit (4300 digits) for integer string conversion; " ++
      "use sys.set_int_max_str_digits() to increase the limit"
  | aborted round => "round " ++ toString round
  | blankLimit => "'>=' not supported between instances of 'int' and 'list'"

end Clausal
