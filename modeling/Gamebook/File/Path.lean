import Gamebook.Text.Split

/-!
# Paths

A path names a file by the directories on the way to it, with slashes between the names. The name
of a file may end in an extension behind a dot; what stands in front of that is its stem. A dot at
the start of a name opens no extension.
-/

namespace Gamebook.Path

/-- The components of a path: the names on the way, without empty ones and without dots that stay
where they are. A path from the top starts with an empty name, and a dot in front is kept. -/
def components (path : String) : List String :=
  let parts := Text.pieces '/' path
  let names := parts.filter fun part => part != "" && part != "."
  match parts with
  | "" :: _ :: _ => "" :: names
  | "." :: _ => "." :: names
  | _ => names

/-- The path of some components. -/
def ofComponents : List String → String
  | [""] => "/"
  | names => "/".intercalate names

/-- The directory of a path; the empty path for a name by itself. The top has none. -/
def directory? (path : String) : Option String :=
  let names := components path
  match names.getLast? with
  | none | some "" => none
  | some _ => some (ofComponents names.dropLast)

/-- The path of a name in a directory. -/
def join (directory name : String) : String :=
  if directory.isEmpty then name else directory ++ "/" ++ name

/-- The stem of a name, and its extension. -/
def splitName (name : String) : String × Option String :=
  let cs := name.toList
  let tail := (cs.reverse.takeWhile (· ≠ '.')).reverse
  let head := cs.take (cs.length - tail.length - 1)
  if head.isEmpty || tail.length = cs.length || name == ".." then (name, none)
  else (String.ofList head, some (String.ofList tail))

/-- The stem of the name at the end of a path. -/
def stem (path : String) : String :=
  (splitName ((components path).getLastD "")).1

end Gamebook.Path
