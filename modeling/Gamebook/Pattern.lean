/-!
# Patterns

A pattern is a template for pages: its text with a noun put in for a placeholder.
-/

namespace Gamebook

/-- A template for pages. -/
structure Pattern where
  /-- The name by which pages refer to the pattern. -/
  name : String
  /-- What stands for the noun. -/
  placeholder : String
  template : String
  deriving DecidableEq, Repr

/-- Put `new` in for every occurrence of a text that is not empty, from left to right. -/
def replaceText (old new : List Char) : List Char → List Char
  | [] => []
  | c :: rest =>
    if old.isPrefixOf (c :: rest) then new ++ replaceText old new (rest.drop (old.length - 1))
    else c :: replaceText old new rest
termination_by cs => cs.length
decreasing_by
  all_goals
    simp only [List.length_drop, List.length_cons]
    omega

/-- The text of a pattern for a noun. Without a placeholder it is the template. -/
def Pattern.expand (p : Pattern) (noun : String) : String :=
  if p.placeholder.isEmpty then p.template
  else String.ofList (replaceText p.placeholder.toList noun.toList p.template.toList)

end Gamebook
