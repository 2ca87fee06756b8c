import Conditionals.CommandLine.Error

/-!
# Reading files

A working directory holds files and directories under their names. A path is followed from it one
part at a time, so `.` and `..` mean what they mean in a shell, a trailing slash asks for a
directory, and a path may go on only behind a directory. The contents of a file have to be UTF-8.
-/

namespace Conditionals.CommandLine

abbrev Reader := Text → Except ReadFailure ByteArray

def readText (read : Reader) (file : Text) : Except ReadFailure Text := do
  let bytes ← read file
  match String.fromUTF8? bytes with
  | some text => return text.toList
  | none => throw .notText

inductive Entry where
  | file (bytes : ByteArray)
  | directory

/-- The entries of a directory, the newest first. -/
structure WorkingDirectory where
  entries : List (Text × Entry) := []

inductive Directory where
  /-- One that holds the working directory, however far up. -/
  | above
  | working
  /-- One in the working directory. It is empty. -/
  | below
  deriving DecidableEq, Repr

def Directory.parent : Directory → Directory
  | .above | .working => .above
  | .below => .working

inductive Place where
  | file (bytes : ByteArray)
  | directory (here : Directory)

def pathLimit : Nat := 4095

def nameLimit : Nat := 255

namespace WorkingDirectory

def put (directory : WorkingDirectory) (name : Text) (entry : Entry) : WorkingDirectory :=
  { entries := (name, entry) :: directory.entries }

def get? (directory : WorkingDirectory) (name : Text) : Option Entry :=
  directory.entries.lookup name

@[simp] theorem get?_put_self (directory : WorkingDirectory) (name : Text) (entry : Entry) :
    (directory.put name entry).get? name = some entry := by
  simp [get?, put]

/-- What a name stands for in one of the directories. Only the entries of the working directory are
known. -/
def find (directory : WorkingDirectory) (here : Directory) (name : Text) :
    Except ReadFailure Place :=
  if nameLimit < Text.byteLength name then .error .nameTooLong
  else
    match here, directory.get? name with
    | .working, some (.file bytes) => .ok (.file bytes)
    | .working, some .directory => .ok (.directory .below)
    | _, _ => .error .missing

def step (directory : WorkingDirectory) : Place → Text → Except ReadFailure Place
  | .file _, _ => .error .notDirectory
  | .directory here, [] | .directory here, ['.'] => .ok (.directory here)
  | .directory here, ['.', '.'] => .ok (.directory here.parent)
  | .directory here, name => directory.find here name

/-- What a path leads to. A path that starts with a slash is followed from the topmost directory. -/
def follow (directory : WorkingDirectory) (path : Text) : Except ReadFailure Place :=
  let start := if path.head? = some '/' then Directory.above else Directory.working
  (path.splitOn '/').foldlM directory.step (.directory start)

def read (directory : WorkingDirectory) : Reader := fun path =>
  if '\x00' ∈ path then .error .nulInName
  else if pathLimit < Text.byteLength path then .error .nameTooLong
  else if path = [] then .error .missing
  else do
    match ← directory.follow path with
    | .file bytes => return bytes
    | .directory _ => throw .directory

end WorkingDirectory
end Conditionals.CommandLine
