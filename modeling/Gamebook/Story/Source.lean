import Gamebook.Story
import Gamebook.Text.Split

/-!
# Sources of stories

A source is a text with one definition after the other. Remarks reach from `//` to the end of the
line; they are blanked out, byte by byte, so that places stay what they were. A definition starts
at a bracket that stands outside of texts and of other brackets and opens neither a verb nor a
script, and it reaches up to the next one.
-/

namespace Gamebook

namespace Source

/-! ### Remarks -/

/-- A line with its remark blanked out. -/
def blankRemark (line : List Char) : List Char :=
  let kept := Text.stripComment line
  kept ++ List.replicate (Text.byteLength line - Text.byteLength kept) ' '

/-- A text with its remarks blanked out. -/
def blankRemarks (cs : List Char) : List Char :=
  ['\n'].intercalate ((Text.split '\n' cs).map blankRemark)

/-! ### Definitions -/

/-- Whether a bracket in front of a text opens a definition. -/
def opensDefinition (behind : List Char) : Bool :=
  (Text.trimStart behind).head?.all fun c => c != ':' && c != '?' && c != '!'

/-- The characters in front of each definition of a text. `at'` of them are already read, `inText`
tells whether they end in a quoted text, and `depth` how many brackets they leave open. -/
def definitionStarts (at' : Nat) (inText : Bool) (depth : Nat) : List Char → List Nat
  | [] => []
  | '\\' :: _ :: rest => definitionStarts (at' + 2) inText depth rest
  | c :: rest =>
    if inText then definitionStarts (at' + 1) (c != '"') depth rest
    else if c = '"' then definitionStarts (at' + 1) true depth rest
    else if c = '[' then
      let here := if depth = 0 ∧ opensDefinition rest then [at'] else []
      here ++ definitionStarts (at' + 1) false (depth + 1) rest
    else if c = ']' then definitionStarts (at' + 1) false (depth - 1) rest
    else definitionStarts (at' + 1) false depth rest

/-- A definition in a text: the characters in front of it, and in front of what follows it. -/
def extents (length : Nat) : List Nat → List (Nat × Nat)
  | [] => []
  | [start] => [(start, length)]
  | start :: next :: rest => (start, next) :: extents length (next :: rest)

/-- The place of the header of a definition. A header that is not closed in time ends with the
definition. -/
def headerSpan (cs : List Char) (start stop : Nat) : Span :=
  let stop := match Text.Marker.bracket.lengthAt? (cs.drop start) with
    | some n => min (start + n) stop
    | none => stop
  ⟨Text.byteLength (cs.take start), Text.byteLength (cs.take stop)⟩

/-- Read the definition between two places. -/
def define (cs : List Char) (s : Story) (extent : Nat × Nat) : Story.Outcome :=
  let (start, stop) := extent
  s.define ((cs.take stop).drop start) (headerSpan cs start stop)

end Source

/-- What loading a source gives: the story, and what was noticed. -/
structure Loaded where
  story : Story
  diagnostics : List Diagnostic

namespace Loaded

/-- Whether something was wrong. -/
def hasErrors (l : Loaded) : Bool :=
  l.diagnostics.any Diagnostic.isError

/-- Take up one definition. -/
def add (l : Loaded) (cs : List Char) (extent : Nat × Nat) : Loaded :=
  let o := Source.define cs l.story extent
  ⟨o.story, l.diagnostics ++ o.diagnostics⟩

end Loaded

/-- Load a source. -/
def Story.load (source : String) : Loaded :=
  let cs := Source.blankRemarks source.toList
  let starts := Source.definitionStarts 0 false 0 cs
  let front := cs.take (starts.headD cs.length)
  let ignored := if Text.isBlank front then [] else
    [Diagnostic.warning ⟨0, Text.byteLength front⟩ "text before the first definition is ignored"]
  (Source.extents cs.length starts).foldl (fun l extent => l.add cs extent) ⟨{}, ignored⟩

end Gamebook
