import Clausal.CommandLine.Path
import Clausal.Fault

/-!
# Directories

The files that a program sees, as texts by location. A path leads to a file if every step before the last
one leads to a directory.
-/

namespace Clausal

/-- The files of a directory and of others. `folders` are further directories that exist. -/
structure Directory where
  files : List (Location × String) := []
  folders : List Location := []

namespace Directory

/-- The directory that holds texts under names. -/
def ofTexts (texts : List (String × String)) : Directory where
  files := texts.map fun (name, text) => ((Path.ofText name).location, text)

/-! ## What exists -/

/-- The device that is empty and stays empty. -/
def nullDevice : Location := ⟨true, ["dev", "null"]⟩

/-- The names at the root. -/
def rootFolders : List String :=
  ["bin", "boot", "dev", "etc", "home", "lib", "media", "mnt", "opt", "proc", "root", "run", "sbin",
    "srv", "sys", "tmp", "usr", "var"]

def isFolder (d : Directory) (l : Location) : Bool :=
  (match l.absolute, l.names with
    | true, [] => true
    | true, [name] => rootFolders.contains name
    | true, _ => false
    | false, names => names.all (· = Location.stepUp)) ||
  d.folders.contains l ||
  d.files.any fun file => file.1.absolute = l.absolute && l.names.isPrefixOf file.1.names.dropLast

def file? (d : Directory) (l : Location) : Option String :=
  if l = nullDevice then some "" else (d.files.find? (·.1 = l)).map (·.2)

/-! ## The way to a file -/

/-- No name has more bytes than this. -/
def nameLimit : Nat := 255

/-- No path has more bytes than this. -/
def pathLimit : Nat := 4095

/-- Goes on to a directory by one step. -/
def enter (d : Directory) (l : Location) (step : String) : Except FileError Location :=
  let next := Path.advance l step
  if nameLimit < step.utf8ByteSize then .error .longName
  else if d.isFolder next then .ok next
  else if (d.file? next).isSome then .error .notDirectory
  else .error .missing

/-- What a path leads to, if every step before the last one leads to a directory. -/
inductive Target where
  /-- The path ends with a step that no name is needed for. -/
  | folder
  /-- The path ends with a name in a directory. -/
  | entry (folder : Location) (name : String)

/-- Follows a path up to its last step. -/
def follow (d : Directory) (p : Path) : Except FileError Target := do
  let folder ← p.steps.dropLast.foldlM d.enter p.start
  match p.steps.getLast? with
  | none => return .folder
  | some step =>
    if step = "." || step = Location.stepUp then return .folder else return .entry folder step

/-- Takes a path apart and follows it. -/
def target (d : Directory) (path : String) : Except Fault (Path × Target) :=
  if path.toList.contains '\x00' then .error .nullInPath
  else if pathLimit < path.utf8ByteSize then .error (.file .longName path)
  else if path = "" then .error (.file .missing path)
  else match d.follow (.ofText path) with
    | .ok target => .ok (.ofText path, target)
    | .error error => .error (.file error path)

/-! ## Reading and writing -/

def read (d : Directory) (path : String) : Except Fault String := do
  match ← d.target path with
  | (_, .folder) => throw (.file .directory path)
  | (p, .entry folder name) =>
    if nameLimit < name.utf8ByteSize then throw (.file .longName path)
    if d.isFolder (folder.child name) then throw (.file .directory path)
    match d.file? (folder.child name) with
    | none => throw (.file .missing path)
    | some text => if p.slashed then throw (.file .notDirectory path) else return text

def put (d : Directory) (l : Location) (text : String) : Directory :=
  if l = nullDevice then d else { d with files := d.files.filter (·.1 ≠ l) ++ [(l, text)] }

def write (d : Directory) (path text : String) : Except Fault Directory := do
  match ← d.target path with
  | (_, .folder) => throw (.file .directory path)
  | (p, .entry folder name) =>
    if p.slashed then throw (.file .directory path)
    if nameLimit < name.utf8ByteSize then throw (.file .longName path)
    if d.isFolder (folder.child name) then throw (.file .directory path)
    return d.put (folder.child name) text

/-- The files that are not in another directory with the same text, by path. -/
def newFiles (d before : Directory) : List (String × String) :=
  (d.files.filter fun file => !before.files.contains file).map fun (l, text) => (l.text, text)

/-- The new files in the directory at hand and below it. -/
def newFilesBelow (d before : Directory) : List (String × String) :=
  { d with files := d.files.filter (·.1.isBelow) }.newFiles before

end Directory

end Clausal
