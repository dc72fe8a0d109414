import Gamebook.File.Fault
import Gamebook.SortedMap
import Gamebook.Text.Split

/-!
# Folders

What is known of the files around the program: their bytes, by the row of names that leads to
each. A directory exists if it has files in it, or if it is known for itself; the one at hand and
those above it always do. Paths are followed name by name, so that a path through a missing
directory leads nowhere, even if it comes back out of it.
-/

namespace Gamebook

/-- The files around the program. -/
structure Folder where
  /-- The bytes of each file, by its names with slashes between them. -/
  files : SortedMap String (List UInt8) := .empty
  /-- Files that can be read by those who know their names, but are not listed. -/
  unlisted : SortedMap String (List UInt8) := .empty
  /-- Directories that are known for themselves. -/
  directories : List String := []

namespace Folder

/-- A row of names with slashes between them. -/
def key (names : List String) : String :=
  "/".intercalate names

/-- The bytes of a file. -/
def file? (f : Folder) (names : List String) : Option (List UInt8) :=
  (f.files.get? (key names)).or (f.unlisted.get? (key names))

/-- What is left of a key behind the name of a directory. -/
def below? (names : List String) (k : String) : Option (List Char) :=
  if names.isEmpty then some k.toList
  else
    let front := (key names).toList ++ ['/']
    if front.isPrefixOf k.toList then some (k.toList.drop front.length) else none

/-- Whether a row of names leads to a directory. -/
def isDirectory (f : Folder) (names : List String) : Bool :=
  names.all (· == "..") || names == [""] || f.directories.contains (key names) ||
    (f.files.keys ++ f.unlisted.keys ++ f.directories).any fun k => (below? names k).isSome

/-- The directory above one. -/
def above (names : List String) : List String :=
  match names.getLast? with
  | none | some ".." => names ++ [".."]
  | some "" => names
  | some _ => names.dropLast

/-- The most bytes that a name can have. -/
def maxNameBytes : Nat := 255

/-- The most bytes that a path can have. -/
def maxPathBytes : Nat := 4095

/-- Follow the parts of a path. All parts but the last have to lead to directories. -/
def follow (f : Folder) (here : List String) : List String → Except FileFault (List String)
  | [] => .ok here
  | part :: rest =>
    if part = "" ∨ part = "." then f.follow here rest
    else if maxNameBytes < part.utf8ByteSize then .error .nameTooLong
    else
      let next := if part = ".." then above here else here ++ [part]
      if rest.isEmpty || f.isDirectory next then f.follow next rest
      else if (f.file? next).isSome then .error .notDirectory
      else .error .notFound

/-- What is wrong with a path, wherever it leads. -/
def checkPath (path : String) : Except FileFault Unit :=
  if path.toList.contains '\x00' then .error .nulInPath
  else if maxPathBytes < path.utf8ByteSize then .error .nameTooLong
  else .ok ()

/-- The names to which a path leads. -/
def locate (f : Folder) (path : String) : Except FileFault (List String) := do
  checkPath path
  match Text.pieces '/' path with
  | [""] => throw .notFound
  | "" :: parts => f.follow [""] parts
  | parts => f.follow [] parts

/-- Whether there is a file or a directory at a path. -/
def contains (f : Folder) (path : String) : Bool :=
  match f.locate path with
  | .ok names => (f.file? names).isSome || f.isDirectory names
  | .error _ => false

/-- The bytes of the file at a path. -/
def read (f : Folder) (path : String) : Except FileFault (List UInt8) := do
  let names ← f.locate path
  match f.file? names with
  | some bytes => return bytes
  | none => throw (if f.isDirectory names then .isDirectory else .notFound)

/-- The text of the file at a path. -/
def readText (f : Folder) (path : String) : Except FileFault String := do
  let bytes ← f.read path
  match String.fromUTF8? ⟨bytes.toArray⟩ with
  | some text => return text
  | none => throw .notText

/-- Write a file. A path that ends in a slash asks for a directory, which cannot be written. -/
def write (f : Folder) (path : String) (bytes : List UInt8) : Except FileFault Folder := do
  checkPath path
  let parts := Text.pieces '/' path
  if 1 < parts.length && parts.getLast? == some "" then
    -- what is wrong on the way is found before what is wrong at the end
    let names := parts.reverse.dropWhile (· == "")
    let _ ← f.locate (key (names.tail.reverse ++ [".", "."]))
    throw .isDirectory
  let names ← f.locate path
  if f.isDirectory names then throw .isDirectory
  return { f with files := f.files.insert (key names) bytes }

/-- Write a text into a file. -/
def writeText (f : Folder) (path text : String) : Except FileFault Folder :=
  f.write path text.toUTF8.toList

/-- The names in a directory: those of its files, and of the directories in it. A path that is
empty or leads to no directory has none. -/
def list (f : Folder) (path : String) : List String :=
  match f.locate path with
  | .error _ => []
  | .ok names => ((f.files.keys.filterMap (below? names)).map fun cs =>
      String.ofList (cs.takeWhile (· ≠ '/'))).eraseDups

/-- The files that are new, or have other bytes than before. -/
def changedSince (f before : Folder) : List (String × List UInt8) :=
  f.files.entries.filter fun (k, bytes) =>
    (before.files.get? k).or (before.unlisted.get? k) != some bytes

end Folder

end Gamebook
