import Gamebook.Page.Body
import Gamebook.Pattern
import Gamebook.SortedMap
import Gamebook.Text.Clean
import Gamebook.Text.Similarity
import Gamebook.Value.Literal

/-!
# Stories

A story is a row of pages, one for each noun, and the patterns from which some of them were made.
It grows by definitions:

    [noun[pattern]=value] body

The value and the pattern may be missing. `[name[name]] template` defines a pattern. A definition
that makes no sense adds nothing and is reported; one that makes some sense is taken as far as it
goes.
-/

namespace Gamebook

/-- Pages in the order of their definitions, and patterns by name. -/
structure Story where
  pages : List Page := []
  patterns : SortedMap String Pattern := {}
  deriving DecidableEq, Repr, Inhabited

/-! ### Problems -/

/-- What may be wrong with a definition. -/
inductive DefinitionProblem where
  | unmatchedHeader
  | namelessDefinition
  | unmatchedPattern (noun : String)
  | unexpectedInHeader (found noun : String)
  | patternWithValue
  | duplicateNoun (noun : String)
  | duplicatePattern (name : String)
  | unknownPattern (name : String)
  | badDefault (e : Value.BadInteger)
  deriving DecidableEq, Repr

/-- The text of a problem. -/
def DefinitionProblem.message : DefinitionProblem → String
  | unmatchedHeader => "unmatched `[` in definition header"
  | namelessDefinition => "definition without a noun name"
  | unmatchedPattern noun => s!"unmatched `[` in header of [{noun}]"
  | unexpectedInHeader found noun =>
    s!"unexpected {Text.quoted found.toList} in header of [{noun}]"
  | patternWithValue => "pattern definitions take no value"
  | duplicateNoun noun => s!"duplicate noun: [{noun}]"
  | duplicatePattern name => s!"duplicate pattern: {name}"
  | unknownPattern name => s!"unknown pattern: {name}"
  | badDefault e => e.message

/-- A value on a pattern does no harm. -/
def DefinitionProblem.severity : DefinitionProblem → Severity
  | patternWithValue => .warning
  | _ => .error

/-- Report a problem with the definition at a place. -/
def DefinitionProblem.at (p : DefinitionProblem) (origin : Span) (label : Option String) :
    Diagnostic :=
  ⟨p.severity, origin, p.message, label⟩

/-- The label that offers another name. -/
def didYouMean (suggestion : Option String) : Option String :=
  suggestion.map fun name => s!"did you mean \"{name}\"?"

namespace Story

/-! ### Looking up -/

/-- The page of a noun. -/
def page? (s : Story) (noun : String) : Option Page :=
  s.pages.find? fun p => p.name == noun

/-- The noun that resembles a name most. -/
def suggest? (s : Story) (name : String) : Option String :=
  Text.suggest? (s.pages.map (·.name)) name

/-- The page of a noun, or the report that there is none. -/
def lookup (s : Story) (noun : String) : Except Diagnostic Page :=
  match s.page? noun with
  | some page => .ok page
  | none => .error ⟨.error, ⟨0, 0⟩, s!"page not found: [{noun}]", didYouMean (s.suggest? noun)⟩

/-! ### Adding -/

/-- Add a page whose noun is new. -/
def addPage (s : Story) (p : Page) : Except DefinitionProblem Story :=
  if (s.page? p.name).isSome then .error (.duplicateNoun p.name)
  else .ok { s with pages := s.pages ++ [p] }

/-- Add a pattern whose name is new. -/
def addPattern (s : Story) (p : Pattern) : Except DefinitionProblem Story :=
  if s.patterns.contains p.name then .error (.duplicatePattern p.name)
  else .ok { s with patterns := s.patterns.insert p.name p }

/-! ### Headers -/

/-- What stands between the brackets of a definition. -/
structure Header where
  noun : String
  pattern : Option String
  /-- The literal of the value. -/
  init : Option (List Char)
  deriving DecidableEq, Repr

/-- Read a name as it is written in a header. -/
def headerName (cs : List Char) : String :=
  String.ofList (Text.unescape (Text.trim cs))

/-- Read a header. -/
def Header.ofText (cs : List Char) : Except DefinitionProblem Header :=
  let n := (Text.find (Text.startsWithOneOf ['[', '=']) cs).getD cs.length
  let noun := headerName (cs.take n)
  if noun.isEmpty then .error .namelessDefinition
  else
    let init (pattern : Option String) : List Char → Except DefinitionProblem Header
      | '=' :: value => .ok ⟨noun, pattern, some value⟩
      | rest =>
        if Text.isBlank rest then .ok ⟨noun, pattern, none⟩
        else .error (.unexpectedInHeader (String.ofList (Text.trim rest)) noun)
    let rest := cs.drop n
    if rest.head? = some '[' then
      match Text.Marker.bracket.inside? rest with
      | none => .error (.unmatchedPattern noun)
      | some (name, behind) => init (some (headerName name)) (Text.trimStart behind)
    else init none rest

/-! ### Definitions -/

/-- What becomes of a story by a definition: the new story, what is reported, and whether a page or
a pattern was added. -/
structure Outcome where
  story : Story
  diagnostics : List Diagnostic
  added : Bool

/-- Nothing was added. -/
def refuse (s : Story) (origin : Span) (p : DefinitionProblem) : Outcome :=
  ⟨s, [p.at origin none], false⟩

/-- Add a pattern, after some reports. -/
def definePattern (s : Story) (p : Pattern) (origin : Span) (reports : List Diagnostic) : Outcome :=
  match s.addPattern p with
  | .ok story => ⟨story, reports, true⟩
  | .error e => ⟨s, reports ++ [e.at origin none], false⟩

/-- The text of a page with a pattern put in front of its body. An unknown pattern is reported and
left out. -/
def pageText (s : Story) (h : Header) (body : List Char) (origin : Span) :
    List Char × List Diagnostic :=
  match h.pattern with
  | none => (body, [])
  | some name => match s.patterns.get? name with
    | some p => ((p.expand h.noun).toList ++ body, [])
    | none =>
      let label := didYouMean (Text.suggest? s.patterns.keys name)
      (body, [(DefinitionProblem.unknownPattern name).at origin label])

/-- The value that a header gives to its noun. What cannot be read of it is reported and left
out. -/
def defaultValue (h : Header) (origin : Span) : Value × List Diagnostic :=
  match h.init with
  | none => (.empty, [])
  | some init =>
    let literal := String.ofList (Text.trim init)
    match Value.ofLiteral? literal with
    | .ok v => (v, [])
    | .error e =>
      (Value.ofLiteral literal, [(DefinitionProblem.badDefault e).at origin s!"in [{h.noun}]"])

/-- Add a page whose noun is new. -/
def definePage (s : Story) (h : Header) (body : List Char) (origin : Span) : Outcome :=
  let (text, aboutPattern) := s.pageText h body origin
  let (defaults, aboutDefault) := defaultValue h origin
  let (page, aboutBody) :=
    Page.ofBody { name := h.noun, defaults } (String.ofList (Text.clean text)) origin
  ⟨{ s with pages := s.pages ++ [page] }, aboutPattern ++ aboutDefault ++ aboutBody, true⟩

/-- Read one definition, from its bracket on. Its remarks are gone already. -/
def define (s : Story) (definition : List Char) (origin : Span) : Outcome :=
  match Text.Marker.bracket.inside? (Text.trimStart definition) with
  | none => s.refuse origin .unmatchedHeader
  | some (header, body) => match Header.ofText header with
    | .error e => s.refuse origin e
    | .ok h =>
      if h.pattern = some h.noun then
        let reports := if h.init.isSome then
          [DefinitionProblem.patternWithValue.at origin s!"in [{h.noun}]"] else []
        s.definePattern ⟨h.noun, h.noun, String.ofList (Text.trim body)⟩ origin reports
      else if (s.page? h.noun).isSome then s.refuse origin (.duplicateNoun h.noun)
      else s.definePage h body origin

/-- Add a pattern that no definition stands for. -/
def registerPattern (s : Story) (p : Pattern) : Outcome :=
  s.definePattern p ⟨0, 0⟩ []

end Story

end Gamebook
