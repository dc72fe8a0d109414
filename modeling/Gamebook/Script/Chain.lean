import Gamebook.Script.Grammar
import Gamebook.Text.Scan

/-!
# Segments and chains

A block of a page keeps its script as text: conditions `[?...]` and instructions `[!...]`, joined
by `&` and `|`. `Chain.ofText` reads such a text. It always gives a chain; a segment that cannot be
read becomes invalid, and the errors are listed beside it with their places in the text.

`chainText` goes the other way, from what an author wrote to the stored form: each piece between
connectors outside of parentheses gets its own brackets.
-/

namespace Gamebook.Script

/-! ### Errors -/

/-- Why a script could not be read. -/
inductive SyntaxError where
  /-- A character that starts no token. -/
  | unexpectedCharacter (c : Char)
  /-- A token, or the end, where something else was expected. -/
  | unexpected (found : Option Token) (expected : List Expectation)
  /-- A word behind a minus sign that is no numeral of the range. -/
  | badInteger (numeral : String)
  /-- Brackets with neither a condition nor an instruction inside. -/
  | unmarkedSegment (body : String)
  /-- No brackets, or brackets that are not closed, where a segment should stand. -/
  | missingSegment
  /-- Something other than a connector behind a segment. -/
  | badConnector (found : Char)
  deriving DecidableEq, Repr

/-- The alternatives of a list, as a message puts them. -/
def alternatives : List String → String
  | [] => "something else"
  | [a] => a
  | [a, b] => s!"{a} or {b}"
  | as => ", ".intercalate (as.dropLast ++ ["or " ++ as.getLastD ""])

/-- The text of an error. -/
def SyntaxError.message : SyntaxError → String
  | unexpectedCharacter c => s!"unexpected character: {Text.quoted [c]}"
  | unexpected found expected =>
    let what := match found with
      | some t => s!"'{t.text}'"
      | none => "end of input"
    s!"found {what} expected {alternatives (expected.map Expectation.text)}"
  | badInteger numeral => s!"invalid integer: {numeral}"
  | unmarkedSegment body => s!"expected `?` or `!` segment, found {Text.quoted body.toList}"
  | missingSegment => "expected `[...]` segment"
  | badConnector found => s!"expected `&` or `|` between segments, found {Text.quotedChar found}"

/-- The error that a report tells of, in a text of `length` bytes. -/
def Report.error (length : Nat) (r : Report) : Located SyntaxError :=
  match r.complaint, r.rest with
  -- the numeral's own span, which may start in front of the place
  | .badInteger numeral span, _ => ⟨.badInteger numeral, span⟩
  | .expected es, [] => ⟨.unexpected none es, ⟨length, length⟩⟩
  | .expected es, t :: _ => ⟨.unexpected (some t.value) es, t.span⟩

/-! ### Segments -/

/-- Read a whole text by a parser; characters that start no token come first. -/
def parseAll {α : Type} (p : Parser α) (cs : List Char) : Except (List (Located SyntaxError)) α :=
  let found := lexemes cs
  match unexpectedOf found with
  | c :: more => .error ((c :: more).map fun c => ⟨.unexpectedCharacter c.value, c.span⟩)
  | [] =>
    let reply := p (tokensOf found)
    match reply.result with
    | some (a, _) => .ok a
    | none => .error (reply.report.map (Report.error (Text.byteLength cs))).toList

/-- Read the body of a condition; a blank one always holds. -/
def Condition.ofText (body : List Char) : Except (List (Located SyntaxError)) Condition :=
  if Text.isBlank body then .ok .always else parseAll Parser.condition body

/-- The text of an action, and the breaks behind it: the `<` at the end are breaks, except that a
backslash in front of them keeps the first one in the action. -/
def splitBreaks (body : List Char) : List Char × Nat :=
  let trimmed := Text.trimEnd body
  let marks := (trimmed.reverse.takeWhile (· == '<')).length
  let front := trimmed.take (trimmed.length - marks)
  if front.getLast? = some '\\' ∧ 0 < marks then (front ++ ['<'], marks - 1) else (front, marks)

/-- Read the body of an instruction. -/
def Instruction.ofText (body : List Char) : Except (List (Located SyntaxError)) Instruction :=
  let (front, breaks) := splitBreaks body
  if Text.isBlank front then .ok ⟨none, breaks⟩
  else (parseAll Parser.action front).map fun a => ⟨some a, breaks⟩

/-- Read what stands between brackets. -/
def Segment.ofText (body : List Char) : Except (List (Located SyntaxError)) Segment :=
  match body with
  | '?' :: rest => (Condition.ofText rest).map .condition
  | '!' :: rest => (Instruction.ofText rest).map .instruction
  | _ => .error [⟨.unmarkedSegment (String.ofList body), ⟨0, Text.byteLength body⟩⟩]

/-! ### Chains -/

/-- The connector that a character stands for. -/
def Connector.ofChar? (c : Char) : Option Connector :=
  if c = '&' then some .and else if c = '|' then some .or else none

/-- The segments of a text that starts at an offset, with the errors in them. The first one has the
given connector in front. Places inside of a segment are counted from behind its marker. -/
def segmentsFrom (connector : Connector) (start : Nat) (cs : List Char) :
    List (Connector × Segment) × List (Located SyntaxError) :=
  match Text.Marker.bracket.lengthAt? cs with
  | none =>
    ([(connector, .invalid)], [⟨.missingSegment, ⟨start, start + Text.byteLength cs⟩⟩])
  | some n =>
    let body := (cs.take (n - 1)).drop 1
    -- the bracket and the marker behind it have one byte each
    let (segment, errors) : Segment × List (Located SyntaxError) :=
      match Segment.ofText body with
      | .ok s => (s, [])
      | .error es => (.invalid, es.map fun e => ⟨e.value, e.span.shift (start + 2)⟩)
    let stop := start + Text.byteLength (cs.take n)
    match _eq : cs.drop n with
    | [] => ([(connector, segment)], errors)
    | c :: rest => match Connector.ofChar? c with
      | none =>
        ([(connector, segment)], errors ++ [⟨.badConnector c, Span.ofLength stop c.utf8Size⟩])
      | some next =>
        let (more, later) := segmentsFrom next (stop + 1) rest
        ((connector, segment) :: more, errors ++ later)
termination_by cs.length
decreasing_by
  have : (cs.drop n).length = rest.length + 1 := by rw [_eq]; rfl
  rw [List.length_drop] at this
  omega

/-- The chain that a stored script spells, and the errors in it. A blank script always holds. -/
def Chain.ofText (script : String) : Chain × List (Located SyntaxError) :=
  let cs := script.toList
  if Text.isBlank cs then (⟨.condition .always, []⟩, [])
  else match segmentsFrom .and 0 cs with
    | ([], errors) => (⟨.invalid, []⟩, errors)
    | ((_, first) :: rest, errors) => (⟨first, rest⟩, errors)

/-! ### Stored scripts -/

/-- The stored form of what an author wrote behind a `?` or a `!`. -/
def chainText (kind : Char) (run : List Char) : List Char :=
  let pieces := Text.splitTopLevel (fun c => c == '&' || c == '|') 0 run
  let bracketed (piece : List Char) := '[' :: kind :: piece ++ [']']
  bracketed pieces.head ++ pieces.tail.flatMap fun (sep, piece) => sep :: bracketed piece

/-- Stored scripts that must all hold, as one. -/
def foldChains (scripts : List String) : String :=
  "&".intercalate (scripts.filter fun s => !s.isEmpty)

end Gamebook.Script
