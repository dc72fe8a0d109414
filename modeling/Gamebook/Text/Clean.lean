import Gamebook.Text.Space

/-!
# Cleaning white space

Authored text is laid out freely; before it is parsed its white space is brought to one form.
Inside of a quoted text a run of white space with a tab or a line break becomes one space, a run of
spaces stays. Elsewhere, and inside of `<...>` in a text, a run next to a structural character is
dropped and any other becomes one space. The escape `\n` becomes a line feed, and two quoted texts
with nothing but white space between them become one, with a line feed at the seam.
-/

namespace Gamebook.Text

/-- The characters with a meaning in scripts. -/
def structural : List Char :=
  ['"', '<', '>', '[', ']', '?', '!', ':', '{', '}', '&', '|', '+', '-', '=', '#', '@', '(', ')',
    ',']

/-- Whether a character has a meaning in scripts. -/
def isStructural (c : Char) : Bool :=
  structural.contains c

/-- Where cleaning stands: in the script, or in a quoted text with some markers open. -/
inductive Place where
  | script
  | text (markers : Nat)
  deriving DecidableEq, Repr

/-- What an ordinary character does to the place. -/
def Place.step : Place → Char → Place
  | script, c => if c = '"' then text 0 else script
  | text 0, c => if c = '<' then text 1 else if c = '"' then script else text 0
  | text (n + 1), c => if c = '>' then text n else if c = '<' then text (n + 2) else text (n + 1)

/-- What becomes of a run of white space between the last character written and the rest. -/
def cleanRun (place : Place) (last : Option Char) (run rest : List Char) : List Char :=
  if place = .text 0 then
    if run.any fun c => c == '\t' || c == '\n' || c == '\r' then [' '] else run
  else if last.all isStructural || rest.head?.all isStructural then []
  else [' ']

/-- Clean a text of which something is already done: `place` is where it ended and `last` the last
character written. -/
def cleanFrom (place : Place) (last : Option Char) : List Char → List Char
  | [] => []
  | ['\\'] => ['\\']
  | '\\' :: 'n' :: rest => '\n' :: cleanFrom place (some '\n') rest
  | '\\' :: c :: rest => '\\' :: c :: cleanFrom place (some c) rest
  | c :: rest =>
    if isSpace c then
      let run := c :: rest.takeWhile isSpace
      let behind := trimStart rest
      let kept := cleanRun place last run behind
      kept ++ cleanFrom place (kept.getLast?.or last) behind
    else if place = .text 0 ∧ c = '"' ∧ (trimStart rest).head? = some '"' then
      -- the two texts become one: both quotes go, and the place stays inside of it
      '\n' :: cleanFrom place (some '\n') ((trimStart rest).drop 1)
    else c :: cleanFrom (place.step c) (some c) rest
termination_by cs => cs.length
decreasing_by
  all_goals have := length_trimStart_le rest
  all_goals simp only [List.length_cons, List.length_drop]
  all_goals omega

/-- Bring the white space of authored text to its one form. -/
def clean (cs : List Char) : List Char :=
  cleanFrom .script none cs

end Gamebook.Text
