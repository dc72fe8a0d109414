import Gamebook.Text.Space

/-!
# Orders

What a player types while a story is played. A line with a colon takes an action, and so do two
words that are no other order; a noun by itself asks for what can be done with it.
-/

namespace Gamebook

/-- An order of the player. -/
inductive Order where
  | help
  /-- List the nouns of the story. -/
  | pages
  | quit
  | undo
  | redo
  /-- Write the session, into a file of its own if one is named. -/
  | save (path : Option String)
  /-- Put a bookmark on the last action. -/
  | bookmark (text : Option String)
  /-- List the verbs that a noun offers. -/
  | look (noun : String)
  | act (noun verb : String)
  deriving DecidableEq, Repr

namespace Order

/-- The order of a first word and what is typed behind it. Orders are recognised in either case,
those without an object only by themselves. -/
def ofWords (head : List Char) (rest : Option String) : Order :=
  let word := String.ofList head
  match String.ofList (head.map Char.toLower), rest with
  | "help", none | "?", none => help
  | "pages", none => pages
  | "quit", none | "q", none => quit
  | "undo", none => undo
  | "redo", none => redo
  | "save", path => save path
  | "bookmark", text => bookmark text
  | _, none => look word
  | _, some verb => act word verb

/-- The order that a line spells, which has no white space at its ends. -/
def ofLine (line : List Char) : Order :=
  if line.contains ':' then
    let noun := line.takeWhile (· ≠ ':')
    let verb := line.drop (noun.length + 1)
    act (String.ofList (Text.trim noun)) (String.ofList (Text.trim verb))
  else
    let head := line.takeWhile fun c => !Text.isSpace c
    let rest := Text.trim (line.drop head.length)
    ofWords head (if rest.isEmpty then none else some (String.ofList rest))

end Order

end Gamebook
