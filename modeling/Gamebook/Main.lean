import Gamebook.Terminal.Task

/-!
# The program

A command is a function of the files around it and of what has been typed. The program starts with
knowing neither: it runs the command, looks up the files that were asked for, reads a line when one
was asked for, and runs the command again, until nothing more is asked for. What has been printed
stays as it is from one run to the next.
-/

namespace Gamebook

/-- What the program has learnt, and how much of the answer it has shown. -/
structure Knowledge where
  folder : Folder := {}
  /-- The paths that have been looked up. -/
  examined : List String := []
  typed : List Char := []
  /-- Nothing more can be typed. -/
  ended : Bool := false
  printed : Nat := 0
  complained : Nat := 0

namespace Knowledge

/-- Whether an error says that there is nothing at a path. -/
def isMissing : IO.Error → Bool
  | .noFileOrDirectory .. => true
  | _ => false

/-- Look at a place to which known directories lead. What can be opened but not read as a file is
a directory. -/
def learn (f : Folder) (path : String) : IO Folder :=
  match f.locate path with
  | .error _ => return f
  | .ok names => do
    let key := Folder.key names
    try
      let bytes ← IO.FS.readBinFile path
      return { f with unlisted := f.unlisted.insert key bytes.toList }
    catch e => return if isMissing e then f else { f with directories := key :: f.directories }

/-- Look up a path, from the top of it to its end. -/
def examine (f : Folder) (path : String) : IO Folder :=
  let names := Path.components path
  let starts := (List.range names.length).map fun i => Path.ofComponents (names.take (i + 1))
  starts.foldlM learn f

/-- Show what has been added to an answer, and write the files that it has changed. -/
def tell (k : Knowledge) (c : Console) : IO Knowledge := do
  let output ← IO.getStdout
  output.putStr (String.ofList (c.output.toList.drop k.printed))
  output.flush
  IO.eprint (String.ofList (c.complaints.toList.drop k.complained))
  for (path, bytes) in c.folder.changedSince k.folder do
    IO.FS.writeBinFile path ⟨bytes.toArray⟩
  return { k with printed := c.output.length, complained := c.complaints.length }

/-- Run a command until it asks for nothing more. The answer is its exit code. -/
partial def converse (arguments : List String) (k : Knowledge) : IO UInt32 := do
  let (code, c) := Console.run arguments { folder := k.folder, input := k.typed, ended := k.ended }
  let fresh := (c.sought.filter fun path => !k.examined.contains path).eraseDups
  if !fresh.isEmpty then
    let folder ← fresh.foldlM examine k.folder
    converse arguments { k with folder, examined := fresh ++ k.examined }
  else
    let k ← k.tell c
    if c.waiting then
      let line ← (← IO.getStdin).getLine
      converse arguments { k with typed := k.typed ++ line.toList, ended := line.isEmpty }
    else return code.toUInt32

end Knowledge

end Gamebook

/-- Carry out the command that the arguments spell. -/
def main (arguments : List String) : IO UInt32 :=
  Gamebook.Knowledge.converse arguments {}
